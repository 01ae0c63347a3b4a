import Qraft.Lifecycle.Members
import Qraft.Workflows.ChainFence

/-! The steps of a chain run one after another: a step is queued once its predecessor's task has
succeeded, and once between two resumes. -/
namespace Qraft.ChainState
open Lifecycle

def Unresolved (s : ChainState) (index : Nat) : Prop :=
  ∃ task t, s.chain.boundTask index = some task ∧ s.life.store.task? task = some t ∧
    ¬ t.status.Terminal

instance (s : ChainState) (index : Nat) : Decidable (s.Unresolved index) :=
  decidable_of_iff
    (((s.chain.boundTask index).bind s.life.store.task?).any (fun t => decide ¬ t.status.Terminal) = true) (by
      simp only [Option.any_eq_true, Option.bind_eq_some_iff, decide_eq_true_eq, Unresolved]
      grind)

/-- What a step may make of the index and the queue of a chain. -/
structure Proceeds (s t : ChainState) : Prop where
  index : t.chain.currentStepIndex = s.chain.currentStepIndex ∨
    t.chain.currentStepIndex = s.chain.currentStepIndex + 1
  /-- A step is queued after the task of its predecessor succeeded. -/
  queued : ∀ q ∈ t.queued, q ∉ s.queued → ∀ i, q.index = i + 1 → ∃ task u,
    s.chain.boundTask i = some task ∧ s.life.store.task? task = some u ∧ u.status = .succeeded
  cancelled : s.chain.status = .cancelled → t.queued = s.queued

/-- The call or completion raises, the enqueue in it or anything before that. -/
def Raises (defaults : RetryDefaults) (s : ChainState) (env : Env) : ChainEvent → Prop
  | .run h raises => ∃ x err, s.handles[h]? = some x ∧ s.run defaults x raises env = .error err
  | .resume _ raises => ∃ err, s.resume defaults raises env = .error err
  | .approve _ raises => ∃ err, s.approve defaults raises env = .error err
  | .stepSuccess k raises => ∃ r err, s.routings[k]? = some r ∧
      s.handleStepSuccess defaults r.index raises env = .error err
  | _ => False

/-- Calls are made through handles that show the status of the row, and no member is requeued. -/
def freshCalls (s : ChainState) : ChainEvent → Bool
  | .run h _ | .resume h _ | .approve h _ | .reject h _ | .cancel h _ =>
    s.handles[h]?.all fun x => x.status = s.chain.status
  | .table (.requeueCommit i) => s.life.requeues[i]?.all fun r => !s.isMember r.task
  | _ => true

/-- What keeps the steps in sequence: `approve` does not find the row FAILED, no `resume` commits
while a process is between the binding check and the locked section of a success of the step it
rebinds, and no member is reaped on a superseded read. -/
def sparesSequence (s : ChainState) : ChainEvent → Bool
  | .approve _ _ => s.chain.status ≠ .failed
  | .resume _ _ => s.routings.all fun r =>
      r.index ≠ s.chain.currentStepIndex || !(r.phase.inWindow && r.success)
  | .table e => s.life.orderlyFor s.isMember e
  | _ => true

/-- What the index says about the steps queued, their tasks and the successes in flight. -/
structure Sequence (s : ChainState) : Prop where
  pending : s.chain.status = .pending →
    s.chain.steps = [] ∧ s.queued = [] ∧ s.chain.currentStepIndex = 0
  indices : ∀ q ∈ s.queued, q.index ≤ s.chain.currentStepIndex
  parked : s.chain.status = .waitingApproval → ∀ q ∈ s.queued, q.index < s.chain.currentStepIndex
  bound : ∀ i task, s.chain.boundTask i = some task → ∃ q ∈ s.queued, q.index = i ∧ q.task = task
  passed : ∀ i < s.chain.currentStepIndex, ∃ task t attempt, s.chain.boundTask i = some task ∧
    s.life.store.task? task = some t ∧ DecidedBy t attempt true
  generations : ∀ q ∈ s.queued, q.resumes ≤ s.resumes
  once : (s.queued.map fun q => (q.index, q.resumes)).Nodup
  firm : ∀ q ∈ s.queued, ∃ t, s.life.store.task? q.task = some t ∧ Firm s.life t
  advancing : ∀ r ∈ s.routings, r.phase = .advancing → r.success = true
  window : ∀ r ∈ s.routings, r.phase.inWindow = true → r.success = true →
    s.chain.boundTask r.index = some r.task ∧
      ∃ t, s.life.store.task? r.task = some t ∧ DecidedBy t r.attempt true

namespace Sequence
variable {defaults : RetryDefaults} {limit : Nat} {s t : ChainState} {env : Env}

/-- The table takes a step that leaves the members in order. -/
theorem life (h : s.Sequence) (hd : s.life.store.Distinct) {e : LifecycleEvent} {life : Lifecycle}
    (hstep : s.life.step limit env e = some life) (hord : s.life.orderlyFor s.isMember e = true) :
    ({ s with life } : ChainState).Sequence := by
  have hnext {q : QueuedStep} (hq : q ∈ s.queued) : ∃ t t', s.life.store.task? q.task = some t ∧
      life.store.task? q.task = some t' ∧ Firm life t' ∧
      ∀ attempt, DecidedBy t attempt true → DecidedBy t' attempt true := by
    obtain ⟨t, ht, hf⟩ := h.firm q hq
    have hm : s.isMember q.task = true := List.any_eq_true.mpr ⟨q, hq, decide_eq_true rfl⟩
    obtain ⟨t', ht', hf', hn⟩ := hf.next hd hstep ht hm hord
    exact ⟨t, t', ht, ht', hf', fun _ hdec => hdec.next hf.coherent hn⟩
  have hdecided {i : Nat} {task : TaskId} {t : QraftTask} {attempt : AttemptId}
      (hb : s.chain.boundTask i = some task) (ht : s.life.store.task? task = some t)
      (hdec : DecidedBy t attempt true) :
      ∃ t', life.store.task? task = some t' ∧ DecidedBy t' attempt true := by
    obtain ⟨q, hq, -, rfl⟩ := h.bound i task hb
    obtain ⟨u, t', hu, ht', -, hkeep⟩ := hnext hq
    obtain rfl := Option.some.inj (ht.symm.trans hu)
    exact ⟨t', ht', hkeep attempt hdec⟩
  refine ⟨h.pending, h.indices, h.parked, h.bound, ?_, h.generations, h.once, ?_, h.advancing, ?_⟩
  · intro i hi
    obtain ⟨task, t, attempt, hb, ht, hdec⟩ := h.passed i hi
    obtain ⟨t', ht', hdec'⟩ := hdecided hb ht hdec
    exact ⟨task, t', attempt, hb, ht', hdec'⟩
  · intro q hq
    obtain ⟨-, t', -, ht', hf', -⟩ := hnext hq
    exact ⟨t', ht', hf'⟩
  · intro r hr hw hs
    obtain ⟨hb, t, ht, hdec⟩ := h.window r hr hw hs
    exact ⟨hb, hdecided hb ht hdec⟩

theorem setRouting (h : s.Sequence) {k : Nat} {r : ChainRouting} (hr : s.routings[k]? = some r)
    (phase : ChainPhase) (hw : phase.inWindow = true → r.phase.inWindow = true)
    (ha : phase = .advancing → r.success = true) : (s.setRouting k { r with phase }).Sequence := by
  refine ⟨h.pending, h.indices, h.parked, h.bound, h.passed, h.generations, h.once, h.firm, ?_, ?_⟩
  · intro x hx hp
    rcases List.mem_or_eq_of_mem_set hx with hx | rfl
    · exact h.advancing x hx hp
    · exact ha hp
  · intro x hx hp hs
    rcases List.mem_or_eq_of_mem_set hx with hx | rfl
    · exact h.window x hx hp hs
    · exact h.window r (List.mem_of_getElem? hr) (hw hp) hs

theorem endRouting (h : s.Sequence) (k : Nat) : (s.endRouting k).Sequence :=
  ⟨h.pending, h.indices, h.parked, h.bound, h.passed, h.generations, h.once, h.firm,
    fun r hr => h.advancing r (List.mem_of_mem_eraseIdx hr),
    fun r hr => h.window r (List.mem_of_mem_eraseIdx hr)⟩

/-- The step of a success in flight was queued. -/
private theorem queued (h : s.Sequence) {r : ChainRouting} (hr : r ∈ s.routings)
    (hw : r.phase.inWindow = true) (hs : r.success = true) : ∃ q ∈ s.queued, q.index = r.index := by
  obtain ⟨hb, -⟩ := h.window r hr hw hs
  obtain ⟨q, hq, hqi, -⟩ := h.bound _ _ hb
  exact ⟨q, hq, hqi⟩

/-- A row with the same index and bindings. -/
theorem row (h : s.Sequence) (hl : t.life = s.life) (hq : t.queued = s.queued)
    (hn : t.resumes = s.resumes) (hr : t.routings = s.routings) (hs : t.chain.steps = s.chain.steps)
    (hi : t.chain.currentStepIndex = s.chain.currentStepIndex)
    (hp : t.chain.status = .pending → s.chain.status = .pending)
    (hw : t.chain.status = .waitingApproval → s.chain.status = .waitingApproval) : t.Sequence := by
  have hb (i : Nat) : t.chain.boundTask i = s.chain.boundTask i := by
    rw [QraftChainModel.boundTask, QraftChainModel.boundTask, hs]
  refine ⟨?_, ?_, ?_, ?_, ?_, ?_, ?_, ?_, ?_, ?_⟩
  · rw [hs, hq, hi]
    exact fun hst => h.pending (hp hst)
  · rw [hq, hi]
    exact h.indices
  · rw [hq, hi]
    exact fun hst => h.parked (hw hst)
  · intro i task
    rw [hb, hq]
    exact h.bound i task
  · intro i hlt
    rw [hb, hl]
    exact h.passed i (hi ▸ hlt)
  · rw [hq, hn]
    exact h.generations
  · rw [hq]
    exact h.once
  · rw [hq, hl]
    exact h.firm
  · rw [hr]
    exact h.advancing
  · simp only [hr, hb, hl]
    exact h.window

/-- A success of the current step moves the chain on. -/
theorem advancedTo (h : s.Sequence) {r : ChainRouting} (hr : r ∈ s.routings) (hp : r.phase = .advancing)
    (hi : s.chain.currentStepIndex = r.index) (w : WorkflowRow) (env : Env)
    (hst : w.status ≠ .pending) : (s.advancedTo (r.index + 1) w env).Sequence := by
  refine ⟨?_, ?_, ?_, h.bound, ?_, h.generations, h.once, h.firm, h.advancing, h.window⟩
  · exact fun hpend => absurd hpend hst
  · exact fun q hq => Nat.le_succ_of_le (hi ▸ h.indices q hq)
  · exact fun _ q hq => Nat.lt_succ_of_le (hi ▸ h.indices q hq)
  · intro i hlt
    have hlt : i < r.index + 1 := hlt
    by_cases heq : i = r.index
    · obtain ⟨hb, t, ht, hdec⟩ := h.window r hr (by rw [hp]; rfl) (h.advancing r hr hp)
      exact ⟨r.task, t, r.attempt, heq ▸ hb, ht, hdec⟩
    · exact h.passed i (by omega)

/-- A task is created for the current step, for the first time since the last `resume`. -/
theorem createAndLink (h : s.Sequence) (hl : (lifecycleSystem limit).Reach s.life) {index : Nat}
    {origin : StepOrigin} {metadata : QraftTask} {cluster : Option String}
    (hi : s.chain.currentStepIndex = index) (hp : s.chain.status ≠ .pending)
    (hw : s.chain.status ≠ .waitingApproval)
    (hnew : ∀ q ∈ s.queued, q.index = index → q.resumes ≠ s.resumes)
    (hwin : ∀ r ∈ s.routings, r.phase.inWindow = true → r.success = true → r.index ≠ index) :
    (s.createAndLink index origin metadata cluster env).Sequence := by
  have hd := reach_distinct hl
  have hstep := step_asyncTask limit s.life metadata cluster env
  have h' := h.life hd hstep rfl
  have hother {i : Nat} (hne : i ≠ index) :
      (s.chain.bindStep index (some s.life.store.nextId)).boundTask i = s.chain.boundTask i := by
    rw [QraftChainModel.boundTask_bindStep, if_neg hne.symm]
  refine ⟨?_, ?_, ?_, ?_, ?_, ?_, ?_, ?_, h'.advancing, ?_⟩
  · exact fun hst => absurd hst hp
  · intro q hq
    rcases List.mem_append.mp hq with hq | hq
    · exact h.indices q hq
    · rw [List.mem_singleton.mp hq]
      exact hi.ge
  · exact fun hst => absurd hst hw
  · intro i task hb
    have hb : (s.chain.bindStep index (some s.life.store.nextId)).boundTask i = some task := hb
    by_cases hne : i = index
    · rw [QraftChainModel.boundTask_bindStep, if_pos hne.symm] at hb
      obtain ⟨_, _, hb⟩ := Option.bind_eq_some_iff.mp hb
      cases hb
      exact ⟨_, List.mem_append_right _ (List.mem_singleton.mpr rfl), hne.symm, rfl⟩
    · rw [hother hne] at hb
      obtain ⟨q, hq, hqi, hqt⟩ := h.bound i task hb
      exact ⟨q, List.mem_append_left _ hq, hqi, hqt⟩
  · intro i hlt
    have hlt : i < s.chain.currentStepIndex := hlt
    obtain ⟨task, t, attempt, hb, ht, hdec⟩ := h'.passed i hlt
    refine ⟨task, t, attempt, ?_, ht, hdec⟩
    exact (hother (by omega)).trans hb
  · intro q hq
    rcases List.mem_append.mp hq with hq | hq
    · exact h.generations q hq
    · rw [List.mem_singleton.mp hq]
      exact Nat.le_refl _
  · have hout : (index, s.resumes) ∉ s.queued.map fun q => (q.index, q.resumes) := by
      intro hm
      obtain ⟨q, hq, he⟩ := List.mem_map.mp hm
      obtain ⟨hqi, hqr⟩ := Prod.mk.inj he
      exact hnew q hq hqi hqr
    rw [ChainState.createAndLink, List.map_append]
    exact List.nodup_append'.mpr ⟨h.once, List.nodup_singleton _, by simpa using hout⟩
  · intro q hq
    rcases List.mem_append.mp hq with hq | hq
    · exact h'.firm q hq
    · rw [List.mem_singleton.mp hq]
      exact firm_created (reach_known hl) hd metadata cluster env
  · intro r hr hin hs
    obtain ⟨hb, ht⟩ := h'.window r hr hin hs
    exact ⟨(hother (hwin r hr hin hs)).trans hb, ht⟩

/-- `resume` unbinds the current step; no success of it is in flight. -/
theorem reopened (h : s.Sequence) {row : WorkflowRow} (hst : row.status = .running)
    (hwin : ∀ r ∈ s.routings, r.phase.inWindow = true → r.success = true →
      r.index ≠ s.chain.currentStepIndex) : (s.reopened row env).Sequence := by
  have hother {w : WorkflowRow} {i : Nat} (hne : i ≠ s.chain.currentStepIndex) :
      ((s.chain.withRow w).bindStep s.chain.currentStepIndex none).boundTask i = s.chain.boundTask i := by
    rw [QraftChainModel.boundTask_bindStep, if_neg hne.symm]
    rfl
  refine ⟨?_, h.indices, ?_, ?_, ?_, ?_, h.once, h.firm, h.advancing, ?_⟩
  · exact fun hp => absurd (hst.symm.trans hp) (by decide)
  · exact fun hw => absurd (hst.symm.trans hw) (by decide)
  · intro i task hb
    have hb : ((s.chain.withRow _).bindStep s.chain.currentStepIndex none).boundTask i = some task := hb
    by_cases hne : i = s.chain.currentStepIndex
    · rw [QraftChainModel.boundTask_bindStep, if_pos hne.symm] at hb
      obtain ⟨_, _, hb⟩ := Option.bind_eq_some_iff.mp hb
      cases hb
    · rw [hother hne] at hb
      exact h.bound i task hb
  · intro i hlt
    have hlt : i < s.chain.currentStepIndex := hlt
    obtain ⟨task, t, attempt, hb, ht, hdec⟩ := h.passed i hlt
    exact ⟨task, t, attempt, (hother (Nat.ne_of_lt hlt)).trans hb, ht, hdec⟩
  · exact fun q hq => Nat.le_succ_of_le (h.generations q hq)
  · intro r hr hin hs
    obtain ⟨hb, ht⟩ := h.window r hr hin hs
    exact ⟨(hother (hwin r hr hin hs)).trans hb, ht⟩

/-- `run` inserts its steps unbound. -/
theorem started (h : s.Sequence) (hp : s.chain.status = .pending) (steps : List QraftChainStep)
    {status : WorkflowStatus} (hst : status ≠ .pending) : (s.started steps status env).Sequence := by
  obtain ⟨hsteps, hq, hi⟩ := h.pending hp
  have hnone (i : Nat) : (s.started steps status env).chain.boundTask i = none := by
    cases hst : steps[i]? with
    | none => simp [ChainState.started, QraftChainModel.boundTask, hst]
    | some st => simp [ChainState.started, QraftChainModel.boundTask, hst]
  have hold (i : Nat) : s.chain.boundTask i = none := by
    rw [QraftChainModel.boundTask, hsteps]
    rfl
  refine ⟨?_, h.indices, ?_, ?_, ?_, h.generations, h.once, h.firm, h.advancing, ?_⟩
  · exact fun hpend => absurd hpend hst
  · intro _ q hqin
    have hqin : q ∈ s.queued := hqin
    rw [hq] at hqin
    exact absurd hqin List.not_mem_nil
  · intro i task hb
    cases (hnone i).symm.trans hb
  · intro i hlt
    have hlt : i < s.chain.currentStepIndex := hlt
    rw [hi] at hlt
    exact absurd hlt (Nat.not_lt_zero i)
  · intro r hr hin hs
    obtain ⟨hb, -⟩ := h.window r hr hin hs
    cases (hold r.index).symm.trans hb

end Sequence

section
variable {defaults : RetryDefaults} {limit : Nat} {s t : ChainState} {env : Env} {e : ChainEvent}

/-- An `approve` that commits found the chain parked. -/
theorem approved_parked (h : s.Sequence) (hok : s.chain.status ≠ .failed) {row : WorkflowRow}
    (ht : s.chain.transitionTo .running = .ok row) (hsteps : s.chain.steps ≠ []) :
    s.chain.status = .waitingApproval := by
  rcases WorkflowStatus.running_mem (WorkflowRow.transitionTo_ok ht).1 with hst | hst | hst
  · exact absurd (h.pending hst).1 hsteps
  · exact hst
  · exact absurd hst hok

/-- A process takes up a completion that is due. -/
private theorem Sequence.routed (hs : s.Sequence) {i index : Nat} {held : QraftTask} {attempt : AttemptId}
    {a : QraftTaskAttempt} {success : Bool} (hdue : s.life.due[i]? = some (held, attempt))
    (ha : held.attempt? attempt = some a) (hsome : a.success = some success)
    (hq : ∃ q ∈ s.queued, q.index = index ∧ q.task = held.id) :
    ({ s with routings := s.routings ++
        [{ index, task := held.id, attempt, success,
           phase := if s.chain.boundTask index = some held.id then .bound else .returned }] } :
      ChainState).Sequence := by
  refine ⟨hs.pending, hs.indices, hs.parked, hs.bound, hs.passed, hs.generations, hs.once, hs.firm, ?_, ?_⟩
  · intro r hr hp
    rcases List.mem_append.mp hr with hr | hr
    · exact hs.advancing r hr hp
    · rw [List.mem_singleton.mp hr] at hp
      simp only at hp
      split at hp
      · cases hp
      · cases hp
  · intro r hr hw hsu
    rcases List.mem_append.mp hr with hr | hr
    · exact hs.window r hr hw hsu
    · rw [List.mem_singleton.mp hr] at hw hsu ⊢
      simp only at hw hsu ⊢
      split at hw
      · rename_i hb
        refine ⟨hb, ?_⟩
        obtain ⟨q, hq, -, hqt⟩ := hq
        obtain ⟨u, hu, hfirm⟩ := hs.firm q hq
        rw [hqt] at hu
        obtain ⟨ham, haid⟩ := Rows.get?_eq_some ha
        refine ⟨u, hu, ?_⟩
        rw [hsu] at hsome
        exact hfirm.due _ (List.mem_of_getElem? hdue) (TaskStore.task?_eq_some hu).2.symm _ ham haid _ hsome
      · cases hw

theorem advancing_of_handlePhase {r : ChainRouting} (h : s.handlePhase r = .advancing) : r.success = true := by
  unfold handlePhase at h
  split at h
  · cases h
  · split at h
    · assumption
    · split at h
      · cases h
      · cases h

section
variable {metadata : QraftTask} {cluster : Option String}

/-- Nothing was queued before `run`. -/
private theorem Sequence.run (hs : s.Sequence) (hl : (lifecycleSystem limit).Reach s.life)
    (hpend : s.chain.status = .pending) (steps : List QraftChainStep) :
    ((s.started steps .running env).createAndLink 0 .run metadata cluster env).Sequence := by
  obtain ⟨-, hq, hi⟩ := hs.pending hpend
  have hstart : (s.started steps .running env).Sequence := hs.started hpend _ (by decide)
  apply hstart.createAndLink hl hi (fun h => by cases h) (fun h => by cases h)
  · intro q hqin
    have hqin : q ∈ s.queued := hqin
    rw [hq] at hqin
    exact absurd hqin List.not_mem_nil
  · intro r hr hw hsu
    obtain ⟨q, hqin, -⟩ := hs.queued hr hw hsu
    rw [hq] at hqin
    exact absurd hqin List.not_mem_nil

private theorem Sequence.resumed (hs : s.Sequence) (hl : (lifecycleSystem limit).Reach s.life)
    {row : WorkflowRow} (ht : s.chain.transitionTo .running = .ok row)
    (hwin : ∀ r ∈ s.routings, r.phase.inWindow = true → r.success = true →
      r.index ≠ s.chain.currentStepIndex) :
    ((s.reopened row env).createAndLink s.chain.currentStepIndex .resume metadata cluster env).Sequence := by
  have hst : row.status = .running := by rw [(WorkflowRow.transitionTo_ok ht).2]
  have hre : (s.reopened row env).Sequence := hs.reopened hst hwin
  apply hre.createAndLink hl rfl (fun hp => absurd (hst.symm.trans hp) (by decide))
    (fun hw => absurd (hst.symm.trans hw) (by decide)) _ hwin
  -- No step was queued since this `resume`.
  intro q hq _ he
  have hle := hs.generations q hq
  have he : q.resumes = s.resumes + 1 := he
  omega

/-- The step a chain is parked on was never queued. -/
private theorem Sequence.approved (hs : s.Sequence) (hl : (lifecycleSystem limit).Reach s.life)
    {row : WorkflowRow} (ht : s.chain.transitionTo .running = .ok row)
    (hpark : s.chain.status = .waitingApproval) :
    ((s.unparked row env).createAndLink s.chain.currentStepIndex .approve metadata cluster env).Sequence := by
  have hst : row.status = .running := by rw [(WorkflowRow.transitionTo_ok ht).2]
  have hnp : row.status ≠ .pending := by
    rw [hst]
    decide
  have hnw : row.status ≠ .waitingApproval := by
    rw [hst]
    decide
  have hrow : (s.unparked row env).Sequence :=
    hs.row rfl rfl rfl rfl rfl rfl (fun h => absurd h hnp) (fun h => absurd h hnw)
  apply hrow.createAndLink hl rfl hnp hnw
  · intro q hq he
    exact absurd he (Nat.ne_of_lt (hs.parked hpark q hq))
  · intro r hr hw hsu he
    obtain ⟨q, hq, hqi⟩ := hs.queued hr hw hsu
    exact Nat.ne_of_lt (hs.parked hpark q hq) (hqi.trans he)

private theorem Sequence.advanced (hs : s.Sequence) (hl : (lifecycleSystem limit).Reach s.life)
    {r : ChainRouting} (hin : r ∈ s.routings) (hp : r.phase = .advancing)
    (hi : s.chain.currentStepIndex = r.index) :
    ((s.advancedTo (r.index + 1) s.chain.toWorkflowRow env).createAndLink (r.index + 1) .advance metadata
      cluster env).Sequence := by
  obtain ⟨q, hq, hqi⟩ := hs.queued hin (by rw [hp]; rfl) (hs.advancing r hin hp)
  have hnp : s.chain.status ≠ .pending := by
    intro hpend
    rw [(hs.pending hpend).2.1] at hq
    exact absurd hq List.not_mem_nil
  -- A parked step was never queued, so no success of it is in flight.
  have hnw : s.chain.status ≠ .waitingApproval := fun hpark =>
    Nat.ne_of_lt (hs.parked hpark q hq) (hqi.trans hi.symm)
  have hadv := hs.advancedTo hin hp hi s.chain.toWorkflowRow env hnp
  have hnew : ∀ q ∈ s.queued, q.index ≠ r.index + 1 := by
    intro q hq he
    have hle := hs.indices q hq
    omega
  apply hadv.createAndLink hl rfl hnp hnw
  · exact fun q hq he => absurd he (hnew q hq)
  · intro x hx hw hsu he
    obtain ⟨q, hq, hqi⟩ := hs.queued hx hw hsu
    exact hnew q hq (hqi.trans he)

end

private theorem sequence_effect (h : ChainEffect defaults limit s env e t)
    (hl : (lifecycleSystem limit).Reach s.life) (hs : s.Sequence) (hfresh : s.freshCalls e = true)
    (hok : s.sparesSequence e = true) : t.Sequence := by
  have hd := reach_distinct hl
  cases h with
  | quiet => exact hs
  | table hf h => exact hs.life hd h hok
  | routed hdue ha hsome hq => exact hs.routed hdue ha hsome hq
  | @handled k r hr hp => exact hs.setRouting hr _ (fun _ => by rw [hp]; rfl) advancing_of_handlePhase
  | announced hr hp =>
    have hset := hs.setRouting hr .returned (fun h => by cases h) (fun h => by cases h)
    exact hset.row rfl rfl rfl rfl rfl rfl id id
  | @finished k i r held life hr hp hdue ht h =>
    have hend := (hs.endRouting k).life hd h rfl
    exact hend
  | crashed | raised => exact hs.endRouting _
  | skipped hr hp hskip => exact hs.setRouting hr _ (fun h => by cases h) (fun h => by cases h)
  | spared hr hp hskip => exact hs.setRouting hr _ (fun h => by cases h) (fun h => by cases h)
  | runGated hx hsteps hp hn hg =>
    have hpend : s.chain.status = .pending := by
      simpa [freshCalls, hx, hp, eq_comm] using hfresh
    exact hs.started hpend _ (by decide)
  | run hx hsteps hp hn hg hm =>
    have hpend : s.chain.status = .pending := by
      simpa [freshCalls, hx, hp, eq_comm] using hfresh
    exact hs.run hl hpend _
  | resumed hx hp ht hm =>
    apply hs.resumed hl ht
    intro r hr hw hsu
    have hall := List.all_eq_true.mp hok r hr
    simpa [hw, hsu] using hall
  | approved ht hm =>
    have hpark := approved_parked hs (by simpa [sparesSequence] using hok) ht hm.steps_ne_nil
    exact hs.approved hl ht hpark
  | rejected ht =>
    obtain ⟨-, rfl⟩ := WorkflowRow.transitionTo_ok ht
    exact hs.row rfl rfl rfl rfl rfl rfl (fun h => by cases h) (fun h => by cases h)
  | cancelled hrow =>
    obtain ⟨-, -, rfl⟩ := WorkflowRow.cancel_eq_some hrow
    exact hs.row rfl rfl rfl rfl rfl rfl (fun h => by cases h) (fun h => by cases h)
  | @succeeded _ _ _ row hr hp hi hlast hrow =>
    have hset := hs.setRouting hr (.announcing (s.chain.withRow row) .success s.settlements.length)
      (fun h => by cases h) (fun h => by cases h)
    obtain ⟨-, -, rfl⟩ := WorkflowRow.settleWorkflow_eq_some hrow
    exact hset.row rfl rfl rfl rfl rfl rfl (fun h => by cases h) (fun h => by cases h)
  | @parked _ _ r _ row hr hp hi hnext hg ht =>
    have hst : row.status ≠ .pending := by
      rw [(WorkflowRow.transitionTo_ok ht).2]
      exact fun h => by cases h
    have hadv := hs.advancedTo (List.mem_of_getElem? hr) hp hi row env hst
    exact hadv.setRouting hr _ (fun h => by cases h) (fun h => by cases h)
  | advanced hr hp hi hnext hg hc hm =>
    exact (hs.advanced hl (List.mem_of_getElem? hr) hp hi).setRouting hr _
      (fun h => by cases h) (fun h => by cases h)
  | @failed _ _ row hr hp hrow =>
    have hset := hs.setRouting hr (.announcing (s.chain.withRow row) .failure s.settlements.length)
      (fun h => by cases h) (fun h => by cases h)
    obtain ⟨-, -, rfl⟩ := WorkflowRow.settleWorkflow_eq_some hrow
    exact hset.row rfl rfl rfl rfl rfl rfl (fun h => by cases h) (fun h => by cases h)

theorem reach_sequence
    (h : (chainSystem defaults limit).ReachWhen
      (fun s e => s.freshCalls e.1 = true ∧ s.sparesSequence e.1 = true) s) : s.Sequence := by
  apply StepSystem.ReachWhen.invariant_of (fun s : ChainState => (lifecycleSystem limit).Reach s.life)
    Sequence (fun _ => reach_life) _ _ h
  · rintro s ⟨chain, hst, -, hi, hsteps, rfl⟩
    have hnone {α : Type} {x : α} {P : Prop} (hx : x ∈ ([] : List α)) : P := absurd hx List.not_mem_nil
    refine ⟨fun _ => ⟨hsteps, rfl, hi⟩, fun _ => hnone, ?_, ?_, ?_, fun _ => hnone, List.nodup_nil,
      fun _ => hnone, fun _ => hnone, fun _ => hnone⟩
    · exact fun hw => by cases hst.symm.trans hw
    · intro i task hb
      rw [QraftChainModel.boundTask, hsteps] at hb
      cases hb
    · intro i hlt
      have hlt : i < chain.currentStepIndex := hlt
      omega
  · rintro s ⟨e, env⟩ s' hl ih ⟨hfresh, hok⟩ hstep
    obtain ⟨t, handles, he, rfl⟩ := step_effect hstep
    have ht := sequence_effect he hl ih hfresh hok
    exact ht.row rfl rfl rfl rfl rfl rfl id id

/-- Each step queues at most one task: `run` for the first step, `approve` and `resume` for the
current one, and a success of the current one for the next. -/
private theorem proceeds_effect (h : ChainEffect defaults limit s env e t) (hs : s.Sequence)
    (hfresh : s.freshCalls e = true) : s.Proceeds t := by
  have quiet (hi : t.chain.currentStepIndex = s.chain.currentStepIndex ∨
      t.chain.currentStepIndex = s.chain.currentStepIndex + 1) (hq : t.queued = s.queued) :
      s.Proceeds t := ⟨hi, fun q hqt hnew => absurd (hq ▸ hqt) hnew, fun _ => hq⟩
  have created {q₀ : QueuedStep} (hqueued : t.queued = s.queued ++ [q₀])
      (hq₀ : ∀ i, q₀.index = i + 1 → ∃ task u attempt, s.chain.boundTask i = some task ∧
        s.life.store.task? task = some u ∧ DecidedBy u attempt true) :
      ∀ q ∈ t.queued, q ∉ s.queued → ∀ i, q.index = i + 1 → ∃ task u,
        s.chain.boundTask i = some task ∧ s.life.store.task? task = some u ∧ u.status = .succeeded := by
    intro q hq hnew i hi
    rw [hqueued] at hq
    rcases List.mem_append.mp hq with hq | hq
    · exact absurd hq hnew
    · rw [List.mem_singleton.mp hq] at hi
      obtain ⟨task, u, attempt, hb, hu, hdec⟩ := hq₀ i hi
      obtain ⟨q', hq', -, rfl⟩ := hs.bound i task hb
      obtain ⟨v, hv, hfirm⟩ := hs.firm q' hq'
      obtain rfl := Option.some.inj (hu.symm.trans hv)
      exact ⟨q'.task, u, hb, hu, hdec.succeeded hfirm.coherent⟩
  cases h with
  | quiet | table | routed | handled | announced | finished | crashed | raised | runGated | rejected
  | cancelled | skipped | spared | succeeded | failed => exact quiet (.inl rfl) rfl
  | parked hr hp hi => exact quiet (.inr (congrArg Nat.succ hi.symm)) rfl
  | run hx hsteps hp hn hg hm =>
    have hpend : s.chain.status = .pending := by
      simpa [freshCalls, hx, hp, eq_comm] using hfresh
    refine ⟨.inl rfl, created rfl ?_, fun hc => by cases hpend.symm.trans hc⟩
    exact fun i hi => absurd hi.symm (Nat.succ_ne_zero i)
  | resumed hx hp ht hm | approved ht hm =>
    have hrun := WorkflowStatus.running_mem (WorkflowRow.transitionTo_ok ht).1
    refine ⟨.inl rfl, created rfl ?_, fun hc => by simp [hc] at hrun⟩
    exact fun i hi => hs.passed i (Nat.lt_of_succ_le hi.ge)
  | advanced hr hp hi hnext hg hc hm =>
    refine ⟨.inr (congrArg Nat.succ hi.symm), created rfl ?_, fun h => absurd h hc⟩
    intro j hj
    obtain rfl := Nat.succ.inj hj
    have hin := List.mem_of_getElem? hr
    obtain ⟨hb, u, hu, hdec⟩ := hs.window _ hin (by rw [hp]; rfl) (hs.advancing _ hin hp)
    exact ⟨_, u, _, hb, hu, hdec⟩

/-- What raises leaves the chain, its steps and the tasks as they were. -/
private theorem raises_unchanged (hr : s.Raises defaults env e)
    (h : s.step defaults limit env e = some t) :
    t.chain = s.chain ∧ t.queued = s.queued ∧ t.life = s.life := by
  cases e with
  | run i raises =>
    obtain ⟨x, err, hx, herr⟩ := hr
    rw [step, hx] at h
    simp only [Option.map_some, herr, Option.some.injEq] at h
    split at h
    · rw [← h]
      exact ⟨rfl, rfl, rfl⟩
    · rw [← h]
      exact ⟨rfl, rfl, rfl⟩
  | resume i raises =>
    obtain ⟨err, herr⟩ := hr
    obtain ⟨x, -, h⟩ := Option.bind_eq_some_iff.mp h
    rw [herr] at h
    split at h
    · cases h
    · cases h
  | approve i raises =>
    obtain ⟨err, herr⟩ := hr
    obtain ⟨x, -, h⟩ := Option.bind_eq_some_iff.mp h
    rw [herr] at h
    cases h
  | stepSuccess k raises =>
    obtain ⟨r, err, hk, herr⟩ := hr
    obtain ⟨r', hk', h⟩ := Option.bind_eq_some_iff.mp h
    obtain rfl := Option.some.inj (hk.symm.trans hk')
    rw [herr] at h
    split at h
    · cases h
      exact ⟨rfl, rfl, rfl⟩
    · cases h
  | _ => cases hr

/-- With fresh handles and no requeue, and as long as `approve` finds no FAILED chain, no `resume`
overtakes a success of the step it rebinds and no member is reaped on a superseded read: at most
one step has an unresolved bound task, each step is queued at most once between two resumes, the
index grows by one at a time, a step is queued when the task bound to its predecessor succeeded,
what raises changes nothing, and a cancelled chain queues nothing. -/
theorem steps_in_sequence
    (h : (chainSystem defaults limit).ReachWhen
      (fun s e => s.freshCalls e.1 = true ∧ s.sparesSequence e.1 = true) s) :
    (∀ i j, s.Unresolved i → s.Unresolved j → i = j) ∧
    (s.queued.map fun q => (q.index, q.resumes)).Nodup ∧
    ∀ e env t, s.freshCalls e = true → s.sparesSequence e = true →
      (chainSystem defaults limit).step s (e, env) = some t →
      s.Proceeds t ∧
      (s.Raises defaults env e → t.chain = s.chain ∧ t.queued = s.queued ∧ t.life = s.life) := by
  have hs := reach_sequence h
  have hcurrent {i : Nat} (hi : s.Unresolved i) : i = s.chain.currentStepIndex := by
    obtain ⟨task, u, hb, hu, hopen⟩ := hi
    obtain ⟨q, hq, rfl, rfl⟩ := hs.bound _ _ hb
    by_contra hne
    obtain ⟨task, v, attempt, hb', hv, hdec⟩ :=
      hs.passed q.index (Nat.lt_of_le_of_ne (hs.indices q hq) hne)
    obtain rfl := Option.some.inj (hb.symm.trans hb')
    obtain rfl := Option.some.inj (hu.symm.trans hv)
    obtain ⟨w, hw, hfirm⟩ := hs.firm q hq
    obtain rfl := Option.some.inj (hu.symm.trans hw)
    exact hopen (hdec.terminal hfirm.coherent)
  refine ⟨fun i j hi hj => (hcurrent hi).trans (hcurrent hj).symm, hs.once, ?_⟩
  intro e env t hfresh _ hstep
  have hnext : s.step defaults limit env e = some t := hstep
  have hraise (hr : s.Raises defaults env e) := raises_unchanged hr hnext
  obtain ⟨u, _, hu, rfl⟩ := step_effect hstep
  obtain ⟨hindex, hqueued, hcancelled⟩ := proceeds_effect hu hs hfresh
  exact ⟨⟨hindex, hqueued, hcancelled⟩, hraise⟩

end

/-- Two steps, the first of which has succeeded. -/
def secondQueued : List (ChainEvent × Env) := [
  clock 1 (.load [plainStep, plainStep]),
  clock 1 (.run 0 none),
  clock 2 (.table (.saveResult { id := 2, success := true, stopped := 2 })),
  clock 2 (.table (.handleResult 0)),
  clock 3 (.route 0 0),
  clock 3 (.handle 0),
  clock 3 (.stepSuccess 0 none)]

theorem steps_in_sequence_queued : ∃ s : ChainState,
    (chainSystem {} 1).ReachWhen
      (fun s e => s.freshCalls e.1 = true ∧ s.sparesSequence e.1 = true) s ∧
    s.queued.length = 2 ∧ s.Unresolved 1 ∧ ∀ i, s.Unresolved i → i = 1 := by
  obtain ⟨s, hr, hp⟩ := StepSystem.exists_reach_of_run
    ((chainSystem {} 1).guard fun s e => s.freshCalls e.1 = true ∧ s.sparesSequence e.1 = true)
    secondQueued (.init (created_init {} 1))
    (fun s => s.queued.length = 2 ∧ s.Unresolved 1) (by decide)
  obtain ⟨hlen, hopen⟩ := of_decide_eq_true hp
  have hreach := StepSystem.reachWhen_of_guard hr
  exact ⟨s, hreach, hlen, hopen, fun i hi => (steps_in_sequence hreach).1 i 1 hi hopen⟩

/-- A failure of the first step is in two hands when the chain is resumed; the second settles it
again while the new task's success is in flight. -/
def resumedOver : List (ChainEvent × Env) := [
  clock 1 (.load [plainStep, plainStep]),
  clock 1 (.run 0 none),
  clock 2 (.table (.saveResult { id := 2, success := false, stopped := 2 })),
  clock 2 (.table (.handleResult 0)),
  clock 4 (.table (.replayUnrouted 0 1 3)),
  clock 4 (.route 0 0),
  clock 4 (.route 1 0),
  clock 4 (.handle 0),
  clock 4 (.handle 1),
  clock 4 (.stepFailure 0),
  clock 5 (.refresh 0),
  clock 5 (.resume 0 none),
  clock 6 (.table (.saveResult { id := 6, success := true, stopped := 6 })),
  clock 6 (.table (.handleResult 1)),
  clock 6 (.route 2 0),
  clock 6 (.handle 2),
  clock 6 (.stepFailure 1),
  clock 7 (.refresh 0),
  clock 7 (.resume 0 none),
  clock 8 (.stepSuccess 2 none)]

/-- A failed chain that is approved queues its step a second time. A chain that is resumed over a
success of its step runs two steps at once. -/
theorem sequence_broken :
    (∃ s : ChainState, (chainSystem {} 1).ReachWhen (fun s e => s.freshCalls e.1 = true) s ∧
      ¬ (s.queued.map fun q => (q.index, q.resumes)).Nodup) ∧
    ∃ s : ChainState, (chainSystem {} 1).ReachWhen (fun s e => s.freshCalls e.1 = true) s ∧
      s.Unresolved 0 ∧ s.Unresolved 1 := by
  constructor
  · obtain ⟨s, hr, hp⟩ := StepSystem.exists_reach_of_run
      ((chainSystem {} 1).guard fun s e => s.freshCalls e.1 = true)
      (firstFails plainStep ++ [clock 4 (.refresh 0), clock 4 (.approve 0 none)])
      (.init (created_init {} 1)) (fun s => ¬ (s.queued.map fun q => (q.index, q.resumes)).Nodup)
      (by decide)
    exact ⟨s, StepSystem.reachWhen_of_guard hr, of_decide_eq_true hp⟩
  · obtain ⟨s, hr, hp⟩ := StepSystem.exists_reach_of_run
      ((chainSystem {} 1).guard fun s e => s.freshCalls e.1 = true) resumedOver
      (.init (created_init {} 1)) (fun s => s.Unresolved 0 ∧ s.Unresolved 1) (by decide)
    exact ⟨s, StepSystem.reachWhen_of_guard hr, of_decide_eq_true hp⟩

end Qraft.ChainState
