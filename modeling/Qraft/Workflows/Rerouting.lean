import Qraft.Foundations.Replay
import Qraft.Workflows.ChainReplay

/-! `route_workflow_completion` of one attempt as a procedure of its own, for a chain step and for a
member of an iter or batch: run to its end once, it finds nothing left to do. -/
namespace Qraft

namespace Lifecycle

/-- An attempt that has been resolved, with its outcome. -/
def HasOutcome (l : Lifecycle) (task : TaskId) (attempt : AttemptId) (success : Bool) : Prop :=
  ∃ t a, l.store.task? task = some t ∧ t.attempt? attempt = some a ∧ a.success = some success

/-- The attempt succeeded, or its task is FAILED or EXHAUSTED. -/
def OutcomeFinal (l : Lifecycle) (task : TaskId) (success : Bool) : Prop :=
  success = true ∨ (l.store.task? task).any (fun t => decide t.status.Dead) = true

/-- A task that has an attempt was created. -/
theorem HasOutcome.task_lt {limit : Nat} {l : Lifecycle} {task : TaskId} {attempt : AttemptId}
    {success : Bool} (h : l.HasOutcome task attempt success) (hl : (lifecycleSystem limit).Reach l) :
    task < l.store.nextId := by
  obtain ⟨t, a, ht, -⟩ := h
  obtain ⟨hm, rfl⟩ := TaskStore.task?_eq_some ht
  exact ((reach_distinct hl).bound t hm).1

end Lifecycle

/-- What happens between the runs of a routing: no `run`, no `resume` and no requeue. -/
def ChainEvent.interleaves : ChainEvent → Bool
  | .run _ _ | .resume _ _ => false
  | .table e => !e.isRequeue
  | _ => true

namespace QraftChainModel

/-- A completion of the step changes the chain no more. -/
def Past (c : QraftChainModel) (index : Nat) (success : Bool) : Prop :=
  c.status = .cancelled ∨ (success = true ∧ index < c.currentStepIndex) ∨
    (c.settledAt ≠ none ∧ (success = true → c.steps[index + 1]? = none))

end QraftChainModel

namespace ChainState

/-- The next transaction of a process that routes a completion. -/
def transaction (defaults : RetryDefaults) (raises : Option QraftError) (env : Env) (s : ChainState)
    (r : ChainRouting) : Option (ChainState × ChainPhase) :=
  match r.phase with
  | .bound => some (s, s.handlePhase r)
  | .advancing =>
    match s.handleStepSuccess defaults r.index raises env with
    | .ok (s', settled) => some (s', s'.settledPhase .success settled)
    | .error _ => none
  | .failing =>
    let (s', settled) := s.completeChain r.index env
    some (s', s'.settledPhase .failure settled)
  | .announcing row hookType settlement =>
    some (s.dispatchWorkflowHook row hookType settlement raises.isSome, .returned)
  | .returned => none

/-- `route_workflow_completion`, for an attempt of a task that a join leads from to a step. -/
def routing (defaults : RetryDefaults) (index : Nat) (task : TaskId) (attempt : AttemptId)
    (success : Bool) : Procedure ChainState ChainPhase (Option QraftError × Env) where
  enter s := if s.chain.boundTask index = some task then .bound else .returned
  halted
    | .returned => true
    | _ => false
  next i s phase := s.transaction defaults i.1 i.2 { index, task, attempt, success, phase }

/-- When `handle` reads the status of the task, it finds the outcome final. -/
def readsFinal (task : TaskId) (success : Bool) (s : ChainState) (phase : ChainPhase) : Prop :=
  phase = .bound → s.life.OutcomeFinal task success

section
variable {defaults : RetryDefaults} {limit : Nat} {s t : ChainState} {env : Env} {e : ChainEvent}
  {raises : Option QraftError} {index : Nat} {task : TaskId} {attempt : AttemptId} {success : Bool}

/-- The transactions are the steps a process of the chain system takes. -/
theorem step_transaction {k : Nat} {r : ChainRouting} {phase : ChainPhase}
    (hr : s.routings[k]? = some r) (h : s.transaction defaults raises env r = some (t, phase)) :
    ∃ e, s.step defaults limit env e = some (t.setRouting k { r with phase }) := by
  unfold transaction at h
  split at h
  · rename_i hp
    cases h
    refine ⟨.handle k, ?_⟩
    simp only [step, hr, hp, Option.bind_some]
  · rename_i hp
    split at h
    · rename_i settled hok
      cases h
      refine ⟨.stepSuccess k raises, ?_⟩
      simp only [step, hr, hp, hok, Option.bind_some]
    · cases h
  · rename_i hp
    cases hc : s.completeChain r.index env with
    | mk u settled =>
      rw [hc] at h
      cases h
      refine ⟨.stepFailure k, ?_⟩
      simp only [step, hr, hp, hc, Option.bind_some]
  · rename_i row hookType settlement hp
    cases h
    refine ⟨.announce k raises.isSome, ?_⟩
    simp only [step, hr, hp, Option.bind_some]
  · cases h

/-- Bound steps are not ahead of the chain, and a chain that has ended is marked so. -/
structure Ranked (s : ChainState) : Prop where
  ahead : ∀ i task, s.chain.boundTask i = some task → i ≤ s.chain.currentStepIndex
  ended : s.chain.status.Terminal → s.chain.settledAt ≠ none

namespace Ranked

/-- A row of the same steps. -/
theorem row (h : s.Ranked) (hs : t.chain.steps = s.chain.steps)
    (hi : s.chain.currentStepIndex ≤ t.chain.currentStepIndex)
    (he : t.chain.status.Terminal → t.chain.settledAt ≠ none) : t.Ranked := by
  refine ⟨?_, he⟩
  intro i task hb
  rw [QraftChainModel.boundTask, hs] at hb
  exact Nat.le_trans (h.ahead i task hb) hi

theorem createAndLink (h : s.Ranked) {i : Nat} {origin : StepOrigin} {metadata : QraftTask}
    {cluster : Option String} (hi : i ≤ s.chain.currentStepIndex) :
    (s.createAndLink i origin metadata cluster env).Ranked := by
  refine ⟨?_, h.ended⟩
  intro j task hb
  have hb : (s.chain.bindStep i (some s.life.store.nextId)).boundTask j = some task := hb
  rw [QraftChainModel.boundTask_bindStep] at hb
  split at hb
  · rename_i hij
    exact hij ▸ hi
  · exact h.ahead j task hb

/-- `run` inserts its steps unbound. -/
theorem started (steps : List QraftChainStep) {status : WorkflowStatus}
    (hst : ¬ status.Terminal) (env : Env) : (s.started steps status env).Ranked := by
  refine ⟨?_, fun ht => absurd ht hst⟩
  intro i task hb
  obtain ⟨st, hst, hb⟩ := Option.bind_eq_some_iff.mp hb
  simp only [ChainState.started, List.getElem?_map] at hst
  obtain ⟨_, _, rfl⟩ := Option.map_eq_some_iff.mp hst
  cases hb

theorem settled (h : s.Ranked) {row : WorkflowRow} (hrow : row.settledAt ≠ none) :
    (s.settled row).Ranked := h.row rfl (Nat.le_refl _) fun _ => hrow

theorem advancedTo (h : s.Ranked) {i : Nat} (hi : s.chain.currentStepIndex ≤ i) {row : WorkflowRow}
    (hrow : row.status.Terminal → row.settledAt ≠ none) : (s.advancedTo i row env).Ranked :=
  h.row rfl hi hrow

/-- `resume` unbinds the step before it binds it again. -/
theorem reopened (h : s.Ranked) {row : WorkflowRow} (hrow : ¬ row.status.Terminal) (env : Env) :
    (s.reopened row env).Ranked := by
  refine ⟨?_, fun ht => absurd ht hrow⟩
  intro i task hb
  have hb : ((s.chain.withRow _).bindStep s.chain.currentStepIndex none).boundTask i = some task := hb
  rw [QraftChainModel.boundTask_bindStep] at hb
  split at hb
  · obtain ⟨_, _, hb⟩ := Option.bind_eq_some_iff.mp hb
    cases hb
  · exact h.ahead i task hb

end Ranked

private theorem running_not_terminal : ¬ WorkflowStatus.running.Terminal := by decide

private theorem waiting_not_terminal : ¬ WorkflowStatus.waitingApproval.Terminal := by decide

private theorem ranked_effect (h : ChainEffect defaults limit s env e t) (hs : s.Ranked) : t.Ranked := by
  cases h with
  | quiet | table | routed | handled | announced | finished | crashed | raised | skipped | spared =>
    exact ⟨hs.ahead, hs.ended⟩
  | runGated => exact Ranked.started _ waiting_not_terminal env
  | run => exact (Ranked.started _ running_not_terminal env).createAndLink (Nat.zero_le _)
  | resumed hx hp ht hm =>
    obtain ⟨-, rfl⟩ := WorkflowRow.transitionTo_ok ht
    exact (hs.reopened running_not_terminal env).createAndLink (Nat.le_refl _)
  | @approved _ _ row _ _ ht hm =>
    obtain ⟨-, rfl⟩ := WorkflowRow.transitionTo_ok ht
    have hrow : (s.unparked { s.chain.toWorkflowRow with status := .running } env).Ranked :=
      hs.row rfl (Nat.le_refl _) fun ht => absurd ht running_not_terminal
    exact hrow.createAndLink (Nat.le_refl _)
  | rejected ht => exact hs.row rfl (Nat.le_refl _) fun _ => Option.some_ne_none _
  | cancelled hrow =>
    obtain ⟨-, -, rfl⟩ := WorkflowRow.cancel_eq_some hrow
    exact hs.row rfl (Nat.le_refl _) fun _ => Option.some_ne_none _
  | succeeded hr hp hi hlast hrow =>
    obtain ⟨-, -, rfl⟩ := WorkflowRow.settleWorkflow_eq_some hrow
    exact hs.row rfl (Nat.le_refl _) fun _ => Option.some_ne_none _
  | failed hr hp hrow =>
    obtain ⟨-, -, rfl⟩ := WorkflowRow.settleWorkflow_eq_some hrow
    exact hs.row rfl (Nat.le_refl _) fun _ => Option.some_ne_none _
  | parked hr hp hi hnext hg ht =>
    obtain ⟨-, rfl⟩ := WorkflowRow.transitionTo_ok ht
    exact hs.row rfl (by rw [hi]; exact Nat.le_succ _) fun ht => absurd ht waiting_not_terminal
  | @advanced _ _ r _ metadata cluster hr hp hi hnext hg hc hm =>
    have hadv : (s.advancedTo (r.index + 1) s.chain.toWorkflowRow env).Ranked :=
      hs.advancedTo (by rw [hi]; exact Nat.le_succ _) hs.ended
    have hqueued : ((s.advancedTo (r.index + 1) s.chain.toWorkflowRow env).createAndLink (r.index + 1)
        .advance metadata cluster env).Ranked := hadv.createAndLink (Nat.le_refl _)
    exact ⟨hqueued.ahead, hqueued.ended⟩

theorem reach_ranked (h : (chainSystem defaults limit).Reach s) : s.Ranked := by
  apply StepSystem.ReachWhen.invariant Ranked _ _ h
  · rintro s ⟨chain, hst, -, -, hs, rfl⟩
    refine ⟨?_, ?_⟩
    · intro i task hb
      simp [QraftChainModel.boundTask, hs] at hb
    · intro ht
      rw [hst] at ht
      exact absurd ht (by decide)
  · rintro s ⟨e, env⟩ s' ih - hstep
    obtain ⟨t, handles, he, rfl⟩ := step_effect hstep
    have ht := ranked_effect he ih
    exact ⟨ht.ahead, ht.ended⟩

/-- Nothing that may happen between two runs makes a completion count again. -/
private theorem past_effect (h : ChainEffect defaults limit s env e t) (he : e.interleaves = true)
    (hp : s.chain.Past index success) : t.chain.Past index success := by
  cases h with
  | quiet | table | routed | handled | announced | finished | crashed | raised | skipped | spared => exact hp
  | runGated | run | resumed => cases he
  | rejected ht =>
    obtain ⟨-, rfl⟩ := WorkflowRow.transitionTo_ok ht
    exact .inl rfl
  | cancelled hrow =>
    obtain ⟨-, -, rfl⟩ := WorkflowRow.cancel_eq_some hrow
    exact .inl rfl
  | approved ht hm =>
    obtain ⟨hv, rfl⟩ := WorkflowRow.transitionTo_ok ht
    rcases hp with hc | hpast | ⟨hset, hlast⟩
    · rw [hc] at hv
      exact absurd hv List.not_mem_nil
    · exact .inr (.inl hpast)
    · exact .inr (.inr ⟨hset, fun hs => (QraftChainModel.bindStep_getElem?_eq_none _ _ _ _).mpr (hlast hs)⟩)
  | succeeded hr hp' hi hlast hrow =>
    obtain ⟨hopen, hterm, rfl⟩ := WorkflowRow.settleWorkflow_eq_some hrow
    rcases hp with hc | hpast | ⟨hset, -⟩
    · exact absurd (.inr (.inr hc)) hterm
    · exact .inr (.inl hpast)
    · exact absurd hopen hset
  | failed hr hp' hrow =>
    obtain ⟨hopen, hterm, rfl⟩ := WorkflowRow.settleWorkflow_eq_some hrow
    rcases hp with hc | hpast | ⟨hset, -⟩
    · exact absurd (.inr (.inr hc)) hterm
    · exact .inr (.inl hpast)
    · exact absurd hopen hset
  | parked hr hp' hi hnext hg ht =>
    obtain ⟨hv, rfl⟩ := WorkflowRow.transitionTo_ok ht
    rcases hp with hc | ⟨hs, hlt⟩ | hset
    · rw [hc] at hv
      exact absurd hv List.not_mem_nil
    · exact .inr (.inl ⟨hs, Nat.lt_succ_of_lt (hi ▸ hlt)⟩)
    · exact .inr (.inr hset)
  | advanced hr hp' hi hnext hg hc hm =>
    rcases hp with hcan | ⟨hs, hlt⟩ | ⟨hset, hlast⟩
    · exact absurd hcan hc
    · exact .inr (.inl ⟨hs, Nat.lt_succ_of_lt (hi ▸ hlt)⟩)
    · exact .inr (.inr ⟨hset, fun hs => (QraftChainModel.bindStep_getElem?_eq_none _ _ _ _).mpr (hlast hs)⟩)

/-- A step is bound to no task but a new one. -/
private theorem bound_bindStep {c : QraftChainModel} {i : Nat} {new : TaskId} (hne : task ≠ new)
    (hb : (c.bindStep i (some new)).boundTask index = some task) : c.boundTask index = some task := by
  rw [QraftChainModel.boundTask_bindStep] at hb
  split at hb
  · obtain ⟨_, _, hb⟩ := Option.bind_eq_some_iff.mp hb
    exact absurd (Option.some.inj hb).symm hne
  · exact hb

private theorem bound_effect (h : ChainEffect defaults limit s env e t) (he : e.interleaves = true)
    (htask : task < s.life.store.nextId) (hb : t.chain.boundTask index = some task) :
    s.chain.boundTask index = some task := by
  have hne := Nat.ne_of_lt htask
  cases h with
  | quiet | table | routed | handled | announced | finished | crashed | raised | skipped | spared
  | rejected | cancelled | succeeded | failed | parked => exact hb
  | runGated | run | resumed => cases he
  | @approved _ _ row =>
    have hb : ((s.unparked row env).chain.bindStep s.chain.currentStepIndex
      (some s.life.store.nextId)).boundTask index = some task := hb
    exact bound_bindStep hne hb
  | @advanced _ _ r =>
    have hb : ((s.advancedTo (r.index + 1) s.chain.toWorkflowRow env).chain.bindStep (r.index + 1)
      (some s.life.store.nextId)).boundTask index = some task := hb
    exact bound_bindStep hne hb

private theorem nextId_effect (h : ChainEffect defaults limit s env e t) :
    s.life.store.nextId ≤ t.life.store.nextId := by
  cases h with
  | table hf h => exact Lifecycle.step_nextId h
  | finished hr hp hd ht h => exact Lifecycle.step_nextId h
  | run | resumed | approved | advanced => exact Nat.le_add_right _ 3
  | quiet | routed | handled | announced | crashed | raised | runGated | rejected | cancelled | skipped
  | succeeded | parked | spared | failed => exact Nat.le_refl _

/-- The routing of an attempt has nothing left to do. -/
structure Spent (index : Nat) (task : TaskId) (success : Bool) (s : ChainState) : Prop where
  created : task < s.life.store.nextId
  past : s.chain.boundTask index = some task → s.chain.Past index success

/-- A process that changes nothing any more. -/
def Idle (index : Nat) (success : Bool) (s : ChainState) : ChainPhase → Prop
  | .bound => s.chain.Past index success
  | .advancing => success = true ∧ s.chain.Past index success
  | .failing => success = false ∧ s.chain.Past index success
  | .announcing _ _ _ => False
  | .returned => True

/-- A process along its first run. -/
structure Going (index : Nat) (task : TaskId) (success : Bool) (s : ChainState) (phase : ChainPhase) :
    Prop where
  ranked : s.Ranked
  created : task < s.life.store.nextId
  advancing : phase = .advancing → success = true
  failing : phase = .failing → success = false
  done : phase.done = true → s.chain.boundTask index = some task → s.chain.Past index success

theorem handleStepSuccess_past (h : s.chain.Past index true) :
    s.handleStepSuccess defaults index raises env = .ok (s, none) := by
  unfold handleStepSuccess
  split
  · rfl
  · rename_i hc
    split
    · rfl
    · rename_i hi
      have hi : s.chain.currentStepIndex = index := not_not.mp hi
      rcases h with hcan | ⟨-, hlt⟩ | ⟨hset, hlast⟩
      · exact absurd hcan hc
      · exact absurd (hi ▸ hlt) (Nat.lt_irrefl _)
      · have hrow : s.chain.settleWorkflow .succeeded env.now = none := if_neg fun h => hset h.1
        simp only [hlast rfl, hrow]

theorem completeChain_past (h : s.chain.Past index false) : s.completeChain index env = (s, none) := by
  unfold completeChain
  split
  · rfl
  · rename_i hc
    rcases h with hcan | ⟨hs, -⟩ | ⟨hset, -⟩
    · exact absurd hcan hc
    · cases hs
    · have hrow : s.chain.settleWorkflow .failed env.now = none := if_neg fun h => hset h.1
      simp only [hrow]

theorem handlePhase_cases (s : ChainState) (r : ChainRouting) :
    (s.handlePhase r = .returned ∧ (s.chain.status = .cancelled ∨ ¬ s.life.OutcomeFinal r.task r.success)) ∨
    (s.handlePhase r = .advancing ∧ r.success = true) ∨ (s.handlePhase r = .failing ∧ r.success = false) := by
  unfold handlePhase
  split
  · rename_i hc
    exact .inl ⟨rfl, .inl hc⟩
  · split
    · rename_i hs
      exact .inr (.inl ⟨rfl, hs⟩)
    · rename_i hs
      split
      · exact .inr (.inr ⟨rfl, Bool.not_eq_true _ ▸ hs⟩)
      · rename_i hd
        exact .inl ⟨rfl, .inr fun h => h.elim hs hd⟩

/-- Nothing left to do, a further routing leaves the chain as it is. -/
theorem routing_absorbs : (routing defaults index task attempt success).Absorbs (chainSystem defaults limit)
    (fun e => e.1.interleaves = true) (Spent index task success) (Idle index success) := by
  refine ⟨?_, ?_, ?_, ?_⟩
  · rintro s ⟨e, env⟩ s' hs hok hstep
    obtain ⟨t, handles, he, rfl⟩ := step_effect hstep
    have ht : Spent index task success t := by
      refine ⟨Nat.lt_of_lt_of_le hs.created (nextId_effect he), ?_⟩
      intro hb
      exact past_effect he hok (hs.past (bound_effect he hok hs.created hb))
    exact ⟨ht.created, ht.past⟩
  · intro s hs
    by_cases hb : s.chain.boundTask index = some task
    · simp only [routing, if_pos hb]
      exact hs.past hb
    · simp only [routing, if_neg hb]
      trivial
  · rintro s ⟨e, env⟩ s' phase hs hidle hok hstep
    obtain ⟨t, handles, he, rfl⟩ := step_effect hstep
    have kept (hp : s.chain.Past index success) : t.chain.Past index success := past_effect he hok hp
    cases phase with
    | bound => exact kept hidle
    | advancing | failing => exact ⟨hidle.1, kept hidle.2⟩
    | announcing => exact hidle
    | returned => trivial
  · rintro s ⟨raises, env⟩ phase t phase' hs hidle hhalt hn
    cases phase with
    | bound =>
      have hn := Option.some.inj hn
      cases hn
      refine ⟨rfl, ?_⟩
      rcases handlePhase_cases s { index, task, attempt, success, phase := .bound } with
        ⟨h, -⟩ | ⟨h, hs⟩ | ⟨h, hs⟩
      · rw [h]
        trivial
      · rw [h]
        exact ⟨hs, hidle⟩
      · rw [h]
        exact ⟨hs, hidle⟩
    | advancing =>
      obtain ⟨rfl, hpast⟩ := hidle
      simp only [routing, transaction, handleStepSuccess_past hpast] at hn
      cases hn
      exact ⟨rfl, trivial⟩
    | failing =>
      obtain ⟨rfl, hpast⟩ := hidle
      simp only [routing, transaction, completeChain_past hpast] at hn
      cases hn
      exact ⟨rfl, trivial⟩
    | announcing => exact absurd hidle id
    | returned => cases hhalt

/-- What the locked section of `_handle_step_success` leaves of a success is past. -/
private theorem going_advancing (hg : Going index task true s .advancing)
    {settled : Option QraftChainModel}
    (h : s.handleStepSuccess defaults index raises env = .ok (t, settled)) :
    Going index task true t (t.settledPhase .success settled) := by
  have going (hr : t.Ranked) (hc : task < t.life.store.nextId)
      (hp : t.chain.boundTask index = some task → t.chain.Past index true) :
      Going index task true t (t.settledPhase .success settled) := by
    refine ⟨hr, hc, fun _ => rfl, ?_, fun _ => hp⟩
    cases settled with
    | none => exact nofun
    | some row => exact nofun
  obtain ⟨hskip, rfl, rfl⟩ | ⟨hi, hlast, row, hrow, rfl, rfl⟩ | ⟨hi, rfl, next, hnext, hmove⟩ :=
    handleStepSuccess_cases h
  · apply going hg.ranked hg.created
    intro hb
    rcases hskip with hc | hi | ⟨hlast, hnone⟩
    · exact .inl hc
    · exact .inr (.inl ⟨rfl, Nat.lt_of_le_of_ne (hg.ranked.ahead index task hb) (Ne.symm hi)⟩)
    · refine .inr (.inr ⟨?_, fun _ => hlast⟩)
      intro hopen
      have hterm : ¬ t.chain.status.Terminal := fun ht => hg.ranked.ended ht hopen
      rw [WorkflowRow.settleWorkflow, if_pos ⟨hopen, hterm⟩] at hnone
      cases hnone
  · obtain ⟨-, -, rfl⟩ := WorkflowRow.settleWorkflow_eq_some hrow
    apply going (hg.ranked.settled (Option.some_ne_none _)) hg.created
    exact fun _ => .inr (.inr ⟨Option.some_ne_none _, fun _ => hlast⟩)
  · have hle : s.chain.currentStepIndex ≤ index + 1 := by rw [hi]; exact Nat.le_succ index
    obtain ⟨hgate, row, hrow, rfl⟩ | ⟨hgate, hc, metadata, cluster, hm, rfl⟩ := hmove
    · obtain ⟨-, rfl⟩ := WorkflowRow.transitionTo_ok hrow
      apply going (hg.ranked.advancedTo hle fun ht => absurd ht waiting_not_terminal) hg.created
      exact fun _ => .inr (.inl ⟨rfl, Nat.lt_succ_self index⟩)
    · apply going ((hg.ranked.advancedTo hle hg.ranked.ended).createAndLink (Nat.le_refl _))
      · exact Nat.lt_of_lt_of_le hg.created (Nat.le_add_right _ 3)
      · exact fun _ => .inr (.inl ⟨rfl, Nat.lt_succ_self index⟩)

/-- What the locked section of `_complete_chain` leaves of a failure is past. -/
private theorem going_failing (hg : Going index task false s .failing) :
    Going index task false (s.completeChain index env).1
      ((s.completeChain index env).1.settledPhase .failure (s.completeChain index env).2) := by
  unfold completeChain
  split
  · rename_i hc
    exact ⟨hg.ranked, hg.created, (fun h => by cases h), fun _ => rfl, fun _ _ => .inl hc⟩
  · split
    · rename_i hnone
      refine ⟨hg.ranked, hg.created, (fun h => by cases h), fun _ => rfl, fun _ _ => .inr (.inr ⟨?_, (fun h => by cases h)⟩)⟩
      intro hopen
      have hterm : ¬ s.chain.status.Terminal := fun ht => hg.ranked.ended ht hopen
      rw [WorkflowRow.settleWorkflow, if_pos ⟨hopen, hterm⟩] at hnone
      cases hnone
    · rename_i row hrow
      obtain ⟨-, -, rfl⟩ := WorkflowRow.settleWorkflow_eq_some hrow
      have hset : (s.settled { s.chain.toWorkflowRow with
          status := .failed, settledAt := some env.now, dateUpdated := env.now }).Ranked :=
        hg.ranked.settled (Option.some_ne_none _)
      refine ⟨⟨hset.ahead, hset.ended⟩, hg.created, (fun h => by cases h), fun _ => rfl, fun _ _ => ?_⟩
      exact .inr (.inr ⟨Option.some_ne_none _, (fun h => by cases h)⟩)

/-- Along the first run nothing is lost between the transactions. -/
private theorem going_effect {phase : ChainPhase} (h : ChainEffect defaults limit s env e t)
    (he : e.interleaves = true) (hg : Going index task success s phase) :
    Going index task success t phase := by
  refine ⟨ranked_effect h hg.ranked, Nat.lt_of_lt_of_le hg.created (nextId_effect h), hg.advancing,
    hg.failing, ?_⟩
  intro hd hb
  exact past_effect h he (hg.done hd (bound_effect h he hg.created hb))

private theorem going_transaction {phase phase' : ChainPhase} (hg : Going index task success s phase)
    (hf : s.readsFinal task success phase)
    (h : s.transaction defaults raises env { index, task, attempt, success, phase } = some (t, phase')) :
    Going index task success t phase' := by
  cases phase with
  | bound =>
    have h := Option.some.inj h
    cases h
    obtain ⟨hp, hr⟩ | ⟨hp, hs⟩ | ⟨hp, hs⟩ :=
      handlePhase_cases s { index, task, attempt, success, phase := .bound }
    · rw [hp]
      refine ⟨hg.ranked, hg.created, nofun, nofun, fun _ _ => ?_⟩
      rcases hr with hc | hfinal
      · exact .inl hc
      · exact absurd (hf rfl) hfinal
    · rw [hp]
      exact ⟨hg.ranked, hg.created, fun _ => hs, nofun, nofun⟩
    · rw [hp]
      exact ⟨hg.ranked, hg.created, nofun, fun _ => hs, nofun⟩
  | advancing =>
    obtain rfl := hg.advancing rfl
    simp only [transaction] at h
    split at h
    · rename_i settled hok
      cases h
      exact going_advancing hg hok
    · cases h
  | failing =>
    obtain rfl := hg.failing rfl
    have hgoing : Going index task false (s.completeChain index env).1
        ((s.completeChain index env).1.settledPhase .failure (s.completeChain index env).2) :=
      going_failing hg
    cases hc : s.completeChain index env with
    | mk u settled =>
      simp only [transaction, hc] at h
      rw [hc] at hgoing
      cases h
      exact hgoing
  | announcing row hookType settlement =>
    cases h
    exact ⟨⟨hg.ranked.ahead, hg.ranked.ended⟩, hg.created, nofun, nofun, fun _ => hg.done rfl⟩
  | returned => cases h

/-- Routing a completion of a chain step is safe to replay. -/
theorem routing_replaySafe (h : (chainSystem defaults limit).Reach s)
    (ha : s.life.HasOutcome task attempt success) :
    (routing defaults index task attempt success).ReplaySafe (chainSystem defaults limit)
      (fun e => e.1.interleaves = true) (readsFinal task success) s := by
  apply routing_absorbs.replaySafe (Going index task success)
  · rintro s ⟨e, env⟩ s' phase hg hok hstep
    obtain ⟨t, handles, he, rfl⟩ := step_effect hstep
    have ht := going_effect he hok hg
    exact ⟨⟨ht.ranked.ahead, ht.ranked.ended⟩, ht.created, ht.advancing, ht.failing, ht.done⟩
  · rintro s ⟨raises, env⟩ phase t phase' hg hf hn
    exact going_transaction hg hf hn
  · intro s phase hg hhalt
    cases phase with
    | returned => exact ⟨hg.created, hg.done rfl⟩
    | bound | advancing | failing | announcing => cases hhalt
  · have hl := ha.task_lt (reach_life h)
    have hr := reach_ranked h
    by_cases hb : s.chain.boundTask index = some task
    · simp only [routing, if_pos hb]
      exact ⟨hr, hl, nofun, nofun, nofun⟩
    · simp only [routing, if_neg hb]
      exact ⟨hr, hl, nofun, nofun, fun _ h => absurd h hb⟩

end

end ChainState

/-- What happens between the runs of a routing: no `run` and no requeue. -/
def ParallelEvent.interleaves : ParallelEvent → Bool
  | .run _ _ => false
  | .table e => !e.isRequeue
  | _ => true

namespace ParallelState

/-- The next transaction of a process that routes a completion. -/
def transaction (raises : Bool) (env : Env) (s : ParallelState) (r : ParallelRouting) :
    Option (ParallelState × ParallelPhase) :=
  match r.phase with
  | .handed => some (s, if s.isTaskTerminal r then .counting else .returned)
  | .counting =>
    let (s', settled) := s.atomicIncrement r env
    some (s', s'.settledPhase settled)
  | .announcing m settlement => some (s.dispatchWorkflowHook m m.hookType settlement raises, .returned)
  | .returned => none

/-- `route_workflow_completion`, for an attempt of a member. -/
def routing (task : TaskId) (attempt : AttemptId) (success : Bool) :
    Procedure ParallelState ParallelPhase (Bool × Env) where
  enter _ := .handed
  halted
    | .returned => true
    | _ => false
  next i s phase := s.transaction i.1 i.2 { task, attempt, success, phase }

/-- When `handle` reads the status of the task, it finds the outcome final. -/
def readsFinal (task : TaskId) (success : Bool) (s : ParallelState) (phase : ParallelPhase) : Prop :=
  phase = .handed → s.life.OutcomeFinal task success

section
variable {defaults : RetryDefaults} {limit : Nat} {s t : ParallelState} {env : Env} {e : ParallelEvent}
  {task : TaskId} {attempt : AttemptId} {success raises : Bool}

/-- The transactions are the steps a process of the system takes. -/
theorem step_transaction {k : Nat} {r : ParallelRouting} {phase : ParallelPhase}
    (hr : s.routings[k]? = some r) (h : s.transaction raises env r = some (t, phase)) :
    ∃ e, s.step defaults limit env e = some (t.setRouting k { r with phase }) := by
  unfold transaction at h
  split at h
  · rename_i hp
    cases h
    refine ⟨.handle k, ?_⟩
    simp only [step, hr, hp, Option.bind_some]
  · rename_i hp
    cases hc : s.atomicIncrement r env with
    | mk u settled =>
      rw [hc] at h
      cases h
      refine ⟨.increment k, ?_⟩
      simp only [step, hr, hp, hc, Option.bind_some]
  · rename_i m settlement hp
    cases h
    refine ⟨.announce k raises, ?_⟩
    simp only [step, hr, hp, Option.bind_some]
  · cases h

/-- The routing of an attempt has nothing left to do. -/
def Spent (task : TaskId) (attempt : AttemptId) (s : ParallelState) : Prop :=
  s.model.status = .cancelled ∨ (task, attempt) ∈ s.counted

/-- A process that changes nothing any more. -/
def Idle (_ : ParallelState) : ParallelPhase → Prop
  | .announcing _ _ => False
  | _ => True

/-- A process along its first run. -/
def Going (task : TaskId) (attempt : AttemptId) (s : ParallelState) : ParallelPhase → Prop
  | .announcing _ _ | .returned => Spent task attempt s
  | _ => True

private theorem spent_effect (h : ParallelEffect defaults limit s env e t) (he : e.interleaves = true)
    (hs : Spent task attempt s) : Spent task attempt t := by
  cases h with
  | quiet | table | routed | handled | declined | skipped | announced | finished | crashed => exact hs
  | run => cases he
  | cancelled hrow =>
    obtain ⟨-, -, rfl⟩ := WorkflowRow.cancel_eq_some hrow
    exact .inl rfl
  | counted hr hp hc => exact .inr (List.mem_append_left _ (hs.resolve_left hc))
  | completed hr hp hc => exact .inr (List.mem_append_left _ (hs.resolve_left hc))

theorem atomicIncrement_spent (h : Spent task attempt s) {phase : ParallelPhase} :
    s.atomicIncrement { task, attempt, success, phase } env = (s, none) := by
  unfold atomicIncrement
  split
  · rfl
  · rename_i hc
    exact if_pos (h.resolve_left hc)

/-- A completion that is counted, or finds the workflow cancelled, is spent. -/
private theorem spent_atomicIncrement (r : ParallelRouting) (env : Env) :
    Spent r.task r.attempt (s.atomicIncrement r env).1 := by
  have hmem : (r.task, r.attempt) ∈ s.counted ++ [(r.task, r.attempt)] :=
    List.mem_append_right _ (List.mem_singleton.mpr rfl)
  unfold atomicIncrement
  split
  · rename_i hc
    exact .inl hc
  · split
    · rename_i hm
      exact .inr hm
    · dsimp only
      split
      · split
        · exact .inr hmem
        · exact .inr hmem
      · exact .inr hmem

/-- Nothing left to do, a further routing leaves the workflow as it is. -/
theorem routing_absorbs : (routing task attempt success).Absorbs (parallelSystem defaults limit)
    (fun e => e.1.interleaves = true) (Spent task attempt) Idle := by
  refine ⟨?_, ?_, ?_, ?_⟩
  · rintro s ⟨e, env⟩ s' hs hok hstep
    obtain ⟨t, handles, he, rfl⟩ := step_effect hstep
    have ht : Spent task attempt t := spent_effect he hok hs
    exact ht
  · exact fun _ _ => trivial
  · exact fun _ _ _ _ _ hidle _ _ => hidle
  · rintro s env phase t phase' hs hidle hhalt hn
    cases phase with
    | handed =>
      have hn := Option.some.inj hn
      cases hn
      refine ⟨rfl, ?_⟩
      split
      · trivial
      · trivial
    | counting =>
      simp only [routing, transaction, atomicIncrement_spent hs] at hn
      cases hn
      exact ⟨rfl, trivial⟩
    | announcing => exact absurd hidle id
    | returned => cases hhalt

private theorem going_transaction {phase phase' : ParallelPhase} (hg : Going task attempt s phase)
    (hf : s.readsFinal task success phase)
    (h : s.transaction raises env { task, attempt, success, phase } = some (t, phase')) :
    Going task attempt t phase' := by
  cases phase with
  | handed =>
    have h := Option.some.inj h
    cases h
    have hterm : s.isTaskTerminal { task, attempt, success, phase := .handed } = true := by
      rw [isTaskTerminal, Bool.or_eq_true]
      exact hf rfl
    rw [if_pos hterm]
    trivial
  | counting =>
    have hspent := spent_atomicIncrement (s := s) { task, attempt, success, phase := .counting } env
    cases hc : s.atomicIncrement { task, attempt, success, phase := .counting } env with
    | mk u settled =>
      simp only [transaction, hc] at h
      rw [hc] at hspent
      cases h
      cases settled with
      | none => exact hspent
      | some m => exact hspent
  | announcing m settlement =>
    cases h
    exact hg
  | returned => cases h

/-- Routing a completion of a member is safe to replay. -/
theorem routing_replaySafe (s : ParallelState) :
    (routing task attempt success).ReplaySafe (parallelSystem defaults limit)
      (fun e => e.1.interleaves = true) (readsFinal task success) s := by
  apply routing_absorbs.replaySafe (Going task attempt)
  · rintro s ⟨e, env⟩ s' phase hg hok hstep
    obtain ⟨t, handles, he, rfl⟩ := step_effect hstep
    have kept (hs : Spent task attempt s) : Spent task attempt t := spent_effect he hok hs
    cases phase with
    | handed | counting => trivial
    | announcing | returned => exact kept hg
  · exact fun s env phase t phase' hg hf hn => going_transaction hg hf hn
  · intro s phase hg hhalt
    cases phase with
    | returned => exact hg
    | handed | counting | announcing => cases hhalt
  · trivial

end

end ParallelState
end Qraft
