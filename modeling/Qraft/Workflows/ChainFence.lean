import Qraft.Lifecycle.Ownership
import Qraft.Workflows.ChainStages

/-! The generations of a chain: the task a step is bound to, the tasks `resume` took the step
away from, and the processes that still hold a completion of one of those. -/
namespace Qraft

/-- A process between its binding check and the end of its locked section. -/
def ChainPhase.inWindow : ChainPhase → Bool
  | .bound | .advancing | .failing => true
  | _ => false

def ChainEvent.process : ChainEvent → Option Nat
  | .handle k | .stepSuccess k _ | .stepFailure k | .announce k _ | .finish k _ | .crash k => some k
  | _ => none

theorem QraftChainModel.boundTask_bindStep (c : QraftChainModel) (i j : Nat) (task : Option TaskId) :
    (c.bindStep i task).boundTask j =
      if i = j then c.steps[j]?.bind fun _ => task else c.boundTask j := by
  unfold boundTask
  rw [bindStep_getElem?]
  by_cases h : i = j
  · simp [h, Option.bind_map]
  · simp [h]

namespace ChainState

/-- `resume` bound the step to another task since it was bound to this one. -/
def Superseded (s : ChainState) (index : Nat) (task : TaskId) : Prop :=
  ∃ q ∈ s.queued, q.index = index ∧ q.task = task ∧
    ∃ q' ∈ s.queued, q'.index = index ∧ q'.origin = .resume ∧ q.resumes < q'.resumes

/-- No `resume` commits while a process is between the binding check and the locked section of
a completion of the step it rebinds. -/
def sparesWindow (s : ChainState) : ChainEvent → Bool
  | .resume _ _ => s.routings.all fun r =>
      r.index ≠ s.chain.currentStepIndex || !r.phase.inWindow
  | _ => true

structure Bindings (s : ChainState) : Prop where
  fresh : ∀ q ∈ s.queued, q.task < s.life.store.nextId
  tasks : (s.queued.map fun q => q.task).Nodup
  generations : ∀ q ∈ s.queued, q.resumes ≤ s.resumes
  bound : ∀ i task, s.chain.boundTask i = some task → ∃ q ∈ s.queued, q.index = i ∧ q.task = task ∧
    ∀ q' ∈ s.queued, q'.index = i → q'.resumes ≤ q.resumes

namespace Bindings
variable {s t : ChainState}

theorem eq_of_task (h : s.Bindings) {q q' : QueuedStep} (hq : q ∈ s.queued) (hq' : q' ∈ s.queued)
    (ht : q.task = q'.task) : q = q' := List.inj_on_of_nodup_map h.tasks hq hq' ht

theorem not_superseded (h : s.Bindings) {i : Nat} {task : TaskId}
    (hb : s.chain.boundTask i = some task) : ¬ s.Superseded i task := by
  rintro ⟨q, hq, -, ht, q', hq', hi', -, hlt⟩
  obtain ⟨p, hp, -, hpt, hmax⟩ := h.bound i task hb
  obtain rfl : q = p := h.eq_of_task hq hp (ht.trans hpt.symm)
  exact Nat.not_lt.mpr (hmax q' hq' hi') hlt

theorem life (h : s.Bindings) {life : Lifecycle} (hle : s.life.store.nextId ≤ life.store.nextId) :
    ({ s with life } : ChainState).Bindings :=
  ⟨fun q hq => Nat.lt_of_lt_of_le (h.fresh q hq) hle, h.tasks, h.generations, h.bound⟩

/-- A row with the same bindings. -/
theorem row (h : s.Bindings) (hl : t.life = s.life) (hq : t.queued = s.queued)
    (hn : t.resumes = s.resumes) (hb : ∀ i, t.chain.boundTask i = s.chain.boundTask i) : t.Bindings := by
  refine ⟨?_, ?_, ?_, ?_⟩
  · rw [hq, hl]
    exact h.fresh
  · rw [hq]
    exact h.tasks
  · rw [hq, hn]
    exact h.generations
  · intro i task
    rw [hb, hq]
    exact h.bound i task

/-- A task is created for a step. -/
theorem createAndLink (h : s.Bindings) {index : Nat} {origin : StepOrigin} {metadata : QraftTask}
    {cluster : Option String} {env : Env} :
    (s.createAndLink index origin metadata cluster env).Bindings := by
  have hgen : ∀ q ∈ (s.createAndLink index origin metadata cluster env).queued,
      q.resumes ≤ s.resumes := by
    intro q hq
    rcases List.mem_append.mp hq with hq | hq
    · exact h.generations q hq
    · rw [List.mem_singleton.mp hq]
  refine ⟨?_, ?_, hgen, ?_⟩
  · intro q hq
    rcases List.mem_append.mp hq with hq | hq
    · exact Nat.lt_of_lt_of_le (h.fresh q hq) (Nat.le_add_right _ 3)
    · rw [List.mem_singleton.mp hq]
      exact Nat.lt_add_of_pos_right (by decide)
  · simp only [ChainState.createAndLink, List.map_append, List.map_cons, List.map_nil]
    rw [List.nodup_append]
    refine ⟨h.tasks, by simp, ?_⟩
    intro x hx y hy
    obtain ⟨q, hq, rfl⟩ := List.mem_map.mp hx
    rw [List.mem_singleton.mp hy]
    exact Nat.ne_of_lt (h.fresh q hq)
  · intro i task hb
    have hb : (s.chain.bindStep index (some s.life.store.nextId)).boundTask i = some task := hb
    rw [QraftChainModel.boundTask_bindStep] at hb
    split at hb
    · rename_i hi
      obtain ⟨_, _, hb⟩ := Option.bind_eq_some_iff.mp hb
      cases hb
      exact ⟨_, List.mem_append_right _ (List.mem_singleton.mpr rfl), hi, rfl, fun q hq _ => hgen q hq⟩
    · rename_i hi
      obtain ⟨q, hq, hqi, hqt, hmax⟩ := h.bound i task hb
      refine ⟨q, List.mem_append_left _ hq, hqi, hqt, ?_⟩
      intro q' hq' hqi'
      rcases List.mem_append.mp hq' with hq' | hq'
      · exact hmax q' hq' hqi'
      · rw [List.mem_singleton.mp hq'] at hqi'
        exact absurd hqi' hi

/-- `resume` unbinds the step before it binds it again. -/
theorem reopened (h : s.Bindings) (row : WorkflowRow) (env : Env) : (s.reopened row env).Bindings := by
  refine ⟨h.fresh, h.tasks, fun q hq => Nat.le_succ_of_le (h.generations q hq), ?_⟩
  intro i task hb
  have hb : ((s.chain.withRow _).bindStep s.chain.currentStepIndex none).boundTask i = some task := hb
  rw [QraftChainModel.boundTask_bindStep] at hb
  split at hb
  · obtain ⟨_, _, hb⟩ := Option.bind_eq_some_iff.mp hb
    cases hb
  · exact h.bound i task hb

/-- `run` inserts its steps unbound. -/
theorem started (h : s.Bindings) (steps : List QraftChainStep) (status : WorkflowStatus) (env : Env) :
    (s.started steps status env).Bindings := by
  refine ⟨h.fresh, h.tasks, h.generations, ?_⟩
  intro i task hb
  obtain ⟨st, hst, hb⟩ := Option.bind_eq_some_iff.mp hb
  simp only [ChainState.started, List.getElem?_map] at hst
  obtain ⟨_, _, rfl⟩ := Option.map_eq_some_iff.mp hst
  cases hb

end Bindings

structure Fenced (s : ChainState) : Prop extends Bindings s where
  window : ∀ r ∈ s.routings, r.phase.inWindow = true → ¬ s.Superseded r.index r.task

section
variable {defaults : RetryDefaults} {limit : Nat} {s t : ChainState} {env : Env} {e : ChainEvent}

private theorem bindings_effect (h : ChainEffect defaults limit s env e t) (hb : s.Bindings) :
    t.Bindings := by
  cases h with
  | table hf h => exact hb.life (Lifecycle.step_nextId h)
  | finished hr hp hd ht h =>
    have hlife := hb.life (Lifecycle.step_nextId h)
    exact hlife.row rfl rfl rfl fun _ => rfl
  | runGated => exact hb.started _ _ env
  | run => exact (hb.started _ _ env).createAndLink
  | resumed => exact (hb.reopened _ env).createAndLink
  | @approved _ _ row =>
    have hrow : (s.unparked row env).Bindings := hb.row rfl rfl rfl fun _ => rfl
    exact hrow.createAndLink
  | @advanced _ _ r _ metadata cluster =>
    have hrow : (s.advancedTo (r.index + 1) s.chain.toWorkflowRow env).Bindings :=
      hb.row rfl rfl rfl fun _ => rfl
    have hqueued : ((s.advancedTo (r.index + 1) s.chain.toWorkflowRow env).createAndLink (r.index + 1)
        .advance metadata cluster env).Bindings := hrow.createAndLink
    exact hqueued.row rfl rfl rfl fun _ => rfl
  | quiet | routed | handled | announced | crashed | raised | rejected | cancelled | skipped | succeeded
  | parked | spared | failed => exact hb.row rfl rfl rfl fun _ => rfl

theorem reach_bindings (h : (chainSystem defaults limit).Reach s) : s.Bindings := by
  apply StepSystem.ReachWhen.invariant Bindings _ _ h
  · rintro s ⟨chain, -, -, -, hs, rfl⟩
    refine ⟨?_, List.nodup_nil, ?_, ?_⟩
    · exact fun q hq => absurd hq List.not_mem_nil
    · exact fun q hq => absurd hq List.not_mem_nil
    · intro i task hb
      simp [QraftChainModel.boundTask, hs] at hb
  · intro s e s' hb _ hstep
    obtain ⟨u, _, hu, rfl⟩ := step_effect hstep
    have hb' := bindings_effect hu hb
    exact hb'.row rfl rfl rfl fun _ => rfl

/-- Past their check, no process holds a completion of a superseded task. -/
private theorem window_effect (h : ChainEffect defaults limit s env e t) (hf : s.Fenced)
    (hok : s.sparesWindow e = true) :
    ∀ r ∈ t.routings, r.phase.inWindow = true → ¬ t.Superseded r.index r.task := by
  have kept {k : Nat} {r : ChainRouting} {phase : ChainPhase} (hr : s.routings[k]? = some r)
      (hp : phase.inWindow = true → r.phase.inWindow = true) :
      ∀ x ∈ s.routings.set k { r with phase }, x.phase.inWindow = true → ¬ s.Superseded x.index x.task := by
    intro x hx hw
    rcases List.mem_or_eq_of_mem_set hx with hx | rfl
    · exact hf.window x hx hw
    · exact hf.window r (List.mem_of_getElem? hr) (hp hw)
  -- Only a task that `resume` creates supersedes others.
  have created {q₀ : QueuedStep} (hq : t.queued = s.queued ++ [q₀])
      (hn : ∀ q ∈ s.queued, q.resumes ≤ q₀.resumes) {rs : List ChainRouting}
      (hw : ∀ r ∈ rs, r.phase.inWindow = true → ¬ s.Superseded r.index r.task)
      (ho : q₀.origin = .resume → ∀ r ∈ rs, r.phase.inWindow = true → r.index ≠ q₀.index) :
      ∀ r ∈ rs, r.phase.inWindow = true → ¬ t.Superseded r.index r.task := by
    rintro r hr hin ⟨q, hqm, hqi, hqt, q', hqm', hqi', ho', hlt⟩
    rw [hq] at hqm hqm'
    rcases List.mem_append.mp hqm' with hqm' | hqm'
    · rcases List.mem_append.mp hqm with hqm | hqm
      · exact hw r hr hin ⟨q, hqm, hqi, hqt, q', hqm', hqi', ho', hlt⟩
      · rw [List.mem_singleton.mp hqm] at hlt
        exact Nat.not_lt.mpr (hn q' hqm') hlt
    · rw [List.mem_singleton.mp hqm'] at ho' hqi'
      exact ho ho' r hr hin hqi'.symm
  cases h with
  | quiet | table | runGated | rejected | cancelled => exact hf.window
  | @routed i index held attempt a success hd ha hs hq =>
    intro r hr hw
    rcases List.mem_append.mp hr with hr | hr
    · exact hf.window r hr hw
    · rw [List.mem_singleton.mp hr] at hw ⊢
      simp only at hw ⊢
      split at hw
      · rename_i hb
        exact hf.not_superseded hb
      · cases hw
  | handled hr hp => exact kept hr fun _ => by rw [hp]; rfl
  | announced hr | skipped hr | spared hr | succeeded hr | parked hr | failed hr => exact kept hr nofun
  | finished | crashed | raised => exact fun r hr => hf.window r (List.mem_of_mem_eraseIdx hr)
  | run | approved => exact created rfl hf.generations hf.window nofun
  | advanced hr => exact created rfl hf.generations (kept hr nofun) nofun
  | resumed hx hp ht hm =>
    apply created rfl (fun q hq => Nat.le_succ_of_le (hf.generations q hq)) hf.window
    intro _ r hr hw
    have hall := List.all_eq_true.mp hok r hr
    simpa [hw] using hall

theorem reach_fenced
    (h : (chainSystem defaults limit).ReachWhen (fun s e => s.sparesWindow e.1 = true) s) :
    s.Fenced := by
  apply h.invariant_of Bindings Fenced (fun _ hs => reach_bindings hs.reach)
  · intro s hs
    refine ⟨reach_bindings (.init hs), ?_⟩
    obtain ⟨chain, -, -, -, -, rfl⟩ := hs
    exact fun r hr => absurd hr List.not_mem_nil
  · intro s e s' hb hf hok hstep
    obtain ⟨u, _, hu, rfl⟩ := step_effect hstep
    have hb' : u.Bindings := bindings_effect hu hb
    have hw := window_effect hu hf hok
    exact ⟨hb'.row rfl rfl rfl fun _ => rfl, hw⟩

/-- As long as no `resume` commits while a completion of the step it rebinds is between its
binding check and its locked section: no step of a process that routes a completion of a task
`resume` superseded settles the chain, advances it or queues a step. -/
theorem superseded_inert
    (h : (chainSystem defaults limit).ReachWhen (fun s e => s.sparesWindow e.1 = true) s)
    {k : Nat} {r : ChainRouting} (hr : s.routings[k]? = some r) (hsup : s.Superseded r.index r.task)
    (he : e.process = some k) (hstep : (chainSystem defaults limit).step s (e, env) = some t) :
    t.chain = s.chain ∧ t.queued = s.queued ∧ t.settlements = s.settlements := by
  have hw : r.phase.inWindow ≠ true := fun hw =>
    (reach_fenced h).window r (List.mem_of_getElem? hr) hw hsup
  have same {k' : Nat} {r' : ChainRouting} (hr' : s.routings[k']? = some r') (hk : some k' = some k)
      (hw' : r'.phase.inWindow = true) : False := by
    cases hk
    cases hr.symm.trans hr'
    exact hw hw'
  obtain ⟨u, _, hu, rfl⟩ := step_effect hstep
  cases hu with
  | quiet | handled | finished | crashed | raised | skipped | spared => exact ⟨rfl, rfl, rfl⟩
  | announced hr hp =>
    exact ⟨rfl, rfl, rfl⟩
  | succeeded hr' hp => exact (same hr' he (by rw [hp]; rfl)).elim
  | parked hr' hp => exact (same hr' he (by rw [hp]; rfl)).elim
  | advanced hr' hp => exact (same hr' he (by rw [hp]; rfl)).elim
  | failed hr' hp => exact (same hr' he (by rw [hp]; rfl)).elim
  | table | routed | runGated | run | resumed | approved | rejected | cancelled => cases he

end

def superseded (s : ChainState) (index : Nat) (task : TaskId) : Bool :=
  s.queued.any fun q => (q.index = index ∧ q.task = task) && s.queued.any fun q' =>
    q'.index = index ∧ q'.origin = .resume ∧ q.resumes < q'.resumes

theorem superseded_iff {s : ChainState} {index : Nat} {task : TaskId} :
    s.superseded index task = true ↔ s.Superseded index task := by
  simp only [superseded, Superseded, List.any_eq_true, Bool.and_eq_true, decide_eq_true_eq, and_assoc]

/-- A step fails, and its completion is in the hands of two processes: the handler's and a
replay's. -/
def failedTwice : List (ChainEvent × Env) := [
  clock 1 (.load [plainStep]),
  clock 1 (.run 0 none),
  clock 2 (.table (.saveResult { id := 2, success := false, stopped := 2 })),
  clock 2 (.table (.handleResult 0)),
  clock 4 (.table (.replayUnrouted 0 1 3)),
  clock 4 (.route 0 0)]

theorem superseded_inert_replayed : ∃ s t : ChainState,
    (chainSystem {} 1).ReachWhen (fun s e => s.sparesWindow e.1 = true) s ∧
    (∃ r, s.routings[1]? = some r ∧ s.Superseded r.index r.task) ∧
    (chainSystem {} 1).step s (clock 7 (.finish 1 1)) = some t ∧ t.chain = s.chain := by
  obtain ⟨s, hr, hp⟩ := StepSystem.exists_reach_of_run
    ((chainSystem {} 1).guard fun s e => s.sparesWindow e.1 = true)
    (failedTwice ++ [clock 4 (.handle 0), clock 4 (.stepFailure 0), clock 5 (.refresh 0),
      clock 5 (.resume 0 none), clock 6 (.route 1 0)]) (.init (created_init {} 1))
    (fun s => (s.routings[1]?.any fun r => s.superseded r.index r.task) ∧
      ((chainSystem {} 1).step s (clock 7 (.finish 1 1))).isSome) (by decide)
  obtain ⟨hsup, hstep⟩ := of_decide_eq_true hp
  obtain ⟨r, hr', hsup⟩ := (Option.any_eq_true _ _).mp hsup
  obtain ⟨t, hstep⟩ := Option.isSome_iff_exists.mp hstep
  have hsup := superseded_iff.mp hsup
  have hreach := StepSystem.reachWhen_of_guard hr
  exact ⟨s, t, hreach, ⟨r, hr', hsup⟩, hstep, (superseded_inert hreach hr' hsup rfl hstep).1⟩

/-- The second process settles the chain that was resumed meanwhile. -/
theorem resumed_chain_settled : ∃ s t : ChainState, (chainSystem {} 1).Reach s ∧
    (∃ r, s.routings[1]? = some r ∧ s.Superseded r.index r.task) ∧
    (chainSystem {} 1).step s (clock 6 (.stepFailure 1)) = some t ∧
    s.chain.status = .running ∧ t.chain.status = .failed := by
  obtain ⟨s, hr, hp⟩ := StepSystem.exists_reach_of_run (chainSystem {} 1)
    (failedTwice ++ [clock 4 (.route 1 0), clock 4 (.handle 0), clock 4 (.handle 1),
      clock 4 (.stepFailure 0), clock 5 (.refresh 0), clock 5 (.resume 0 none)])
    (.init (created_init {} 1))
    (fun s => (s.routings[1]?.any fun r => s.superseded r.index r.task) ∧
      ((chainSystem {} 1).step s (clock 6 (.stepFailure 1))).any fun t =>
        s.chain.status = .running ∧ t.chain.status = .failed) (by decide)
  obtain ⟨hsup, hstep⟩ := of_decide_eq_true hp
  obtain ⟨r, hr', hsup⟩ := (Option.any_eq_true _ _).mp hsup
  obtain ⟨t, ht, hp⟩ := (Option.any_eq_true _ _).mp hstep
  obtain ⟨hrunning, hfailed⟩ := of_decide_eq_true hp
  exact ⟨s, t, hr, ⟨r, hr', superseded_iff.mp hsup⟩, ht, hrunning, hfailed⟩

end ChainState
end Qraft
