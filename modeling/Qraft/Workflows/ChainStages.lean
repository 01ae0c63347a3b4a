import Qraft.Workflows.ChainEffects

/-! Where a chain stands: one that has ended stays where it is, and a gate lets a step through
only when it was approved. -/
namespace Qraft

def ChainEvent.isResume : ChainEvent → Bool
  | .resume _ _ => true
  | _ => false

/-- A chain that succeeded is at its last step. -/
def QraftChainModel.AtEnd (c : QraftChainModel) : Prop :=
  c.status = .succeeded → c.steps[c.currentStepIndex + 1]? = none

theorem WorkflowStatus.running_mem {s : WorkflowStatus} (h : .running ∈ s.validTransitions) :
    s = .pending ∨ s = .waitingApproval ∨ s = .failed := by
  cases s <;> simp_all [validTransitions]

theorem WorkflowStatus.waitingApproval_mem {s : WorkflowStatus}
    (h : .waitingApproval ∈ s.validTransitions) : s = .running := by
  cases s <;> simp_all [validTransitions]

theorem WorkflowStatus.cancelled_mem {s : WorkflowStatus} (h : .cancelled ∈ s.validTransitions) :
    ¬ s.Terminal := by
  cases s <;> simp_all [validTransitions, Terminal]

namespace ChainState

/-- What leaves a chain that has ended alone: `run` finds the row not terminal, `approve` finds
it not FAILED, and no success of the current step of a FAILED chain has a next step to queue. -/
def sparesEnded (s : ChainState) : ChainEvent → Bool
  | .run _ _ => ¬ s.chain.status.Terminal
  | .approve _ _ => s.chain.status ≠ .failed
  | .stepSuccess k _ => s.chain.status ≠ .failed || s.routings[k]?.all fun r =>
      s.chain.currentStepIndex ≠ r.index || s.chain.steps[r.index + 1]?.isNone
  | _ => true

section
variable {defaults : RetryDefaults} {limit : Nat} {s t : ChainState} {env : Env} {e : ChainEvent}

/-- No allowed step but `resume` moves a chain that has ended. -/
private theorem ended_effect (h : ChainEffect defaults limit s env e t) (hend : s.chain.AtEnd)
    (hok : s.sparesEnded e = true) (hres : e.isResume = false) (hterm : s.chain.status.Terminal) :
    t.chain = s.chain ∧ t.queued = s.queued := by
  cases h with
  | quiet | table | routed | handled | finished | crashed | raised | skipped | spared =>
    exact ⟨rfl, rfl⟩
  | announced hr hp =>
    exact ⟨rfl, rfl⟩
  | runGated hx hs hp hn hg => simp [sparesEnded, hterm] at hok
  | run hx hs hp hn hg hm => simp [sparesEnded, hterm] at hok
  | resumed hx hp ht hm => cases hres
  | approved ht hm =>
    have hne : s.chain.status ≠ .failed := by simpa [sparesEnded] using hok
    rcases WorkflowStatus.running_mem (WorkflowRow.transitionTo_ok ht).1 with hp | hp | hp
    · simp [hp, WorkflowStatus.Terminal] at hterm
    · simp [hp, WorkflowStatus.Terminal] at hterm
    · exact absurd hp hne
  | rejected ht => exact absurd hterm (WorkflowStatus.cancelled_mem (WorkflowRow.transitionTo_ok ht).1)
  | cancelled hrow => exact absurd hterm (WorkflowRow.cancel_eq_some hrow).2.1
  | succeeded hr hp hi hlast hrow => exact absurd hterm (WorkflowRow.settleWorkflow_eq_some hrow).2.1
  | parked hr hp hi hnext hg ht =>
    have hrun := WorkflowStatus.waitingApproval_mem (WorkflowRow.transitionTo_ok ht).1
    simp [hrun, WorkflowStatus.Terminal] at hterm
  | advanced hr hp hi hnext hg hc hm =>
    rcases hterm with ht | ht | ht
    · have hlast := hend ht
      rw [hi, hnext] at hlast
      cases hlast
    · simp [sparesEnded, ht, hr, hi, hnext] at hok
    · exact absurd ht hc
  | failed hr hp hrow => exact absurd hterm (WorkflowRow.settleWorkflow_eq_some hrow).2.1

/-- A chain succeeds at its last step, and stays there. -/
private theorem atEnd_effect (h : ChainEffect defaults limit s env e t) (hend : s.chain.AtEnd) :
    t.chain.AtEnd := by
  cases h with
  | quiet | table | routed | handled | finished | crashed | raised | skipped | spared => exact hend
  | announced hr hp =>
    exact hend
  | runGated | run => exact fun h => by cases h
  | resumed hx hp ht hm | approved ht hm =>
    obtain ⟨-, rfl⟩ := WorkflowRow.transitionTo_ok ht
    exact fun h => by cases h
  | rejected ht =>
    obtain ⟨-, rfl⟩ := WorkflowRow.transitionTo_ok ht
    exact fun h => by cases h
  | cancelled hrow =>
    obtain ⟨-, -, rfl⟩ := WorkflowRow.cancel_eq_some hrow
    exact fun h => by cases h
  | succeeded hr hp hi hlast hrow =>
    intro _
    exact hi ▸ hlast
  | parked hr hp hi hnext hg ht =>
    obtain ⟨-, rfl⟩ := WorkflowRow.transitionTo_ok ht
    exact fun h => by cases h
  | advanced hr hp hi hnext hg hc hm =>
    intro hs
    have hlast := hend hs
    rw [hi, hnext] at hlast
    cases hlast
  | failed hr hp hrow =>
    obtain ⟨-, -, rfl⟩ := WorkflowRow.settleWorkflow_eq_some hrow
    exact fun h => by cases h

end

section
variable {defaults : RetryDefaults} {limit : Nat} {s t : ChainState}

private theorem reach_atEnd
    (h : (chainSystem defaults limit).ReachWhen (fun s e => s.sparesEnded e.1 = true) s) :
    s.chain.AtEnd := by
  apply h.invariant fun s => s.chain.AtEnd
  · rintro s ⟨chain, hp, -, -, -, rfl⟩ hs
    rw [hp] at hs
    cases hs
  · intro s e s' hend _ hstep
    obtain ⟨u, _, hu, rfl⟩ := step_effect hstep
    have hend' : u.chain.AtEnd := atEnd_effect hu hend
    exact hend'

/-- Where a success reaches a chain that has ended, its transaction returns. -/
private theorem handleStepSuccess_ended (hend : s.chain.AtEnd) (hterm : s.chain.status.Terminal)
    {k : Nat} {r : ChainRouting} {raises : Option QraftError} {env : Env} (hr : s.routings[k]? = some r)
    (hok : s.sparesEnded (.stepSuccess k raises) = true) :
    s.handleStepSuccess defaults r.index raises env = .ok (s, none) := by
  unfold handleStepSuccess
  split
  · rfl
  · rename_i hc
    split
    · rfl
    · rename_i hi
      have hi : s.chain.currentStepIndex = r.index := not_not.mp hi
      have hlast : s.chain.steps[r.index + 1]? = none := by
        rcases hterm with ht | ht | ht
        · exact hi ▸ hend ht
        · simpa [sparesEnded, ht, hr, hi] using hok
        · exact absurd ht hc
      have hrow : s.chain.settleWorkflow .succeeded env.now = none := by
        simp [WorkflowRow.settleWorkflow, hterm]
      simp only [hlast, hrow]

/-- As long as `run` finds no terminal row, `approve` no FAILED one, and no step of a FAILED
chain succeeds with a next step to queue: a chain that has ended keeps its row and its steps and
queues nothing, however the run goes on without a `resume`, and routing a success to it returns. -/
theorem ended_stays
    (h : (chainSystem defaults limit).ReachWhen (fun s e => s.sparesEnded e.1 = true) s)
    (hterm : s.chain.status.Terminal)
    (hp : (chainSystem defaults limit).Path
      (fun s e => s.sparesEnded e.1 = true ∧ e.1.isResume = false) s t) :
    t.chain = s.chain ∧ t.queued = s.queued ∧
    ∀ k r raises env, t.routings[k]? = some r → t.sparesEnded (.stepSuccess k raises) = true →
      t.handleStepSuccess defaults r.index raises env = .ok (t, none) := by
  have hsame : t.chain = s.chain ∧ t.queued = s.queued := by
    induction hp with
    | refl => exact ⟨rfl, rfl⟩
    | step hpath hok hstep ih =>
      have hend := (reach_atEnd h)
      rw [← ih.1] at hend hterm
      obtain ⟨u, _, hu, rfl⟩ := step_effect hstep
      obtain ⟨hc, hq⟩ := ended_effect hu hend hok.1 hok.2 hterm
      exact ⟨hc.trans ih.1, hq.trans ih.2⟩
  refine ⟨hsame.1, hsame.2, ?_⟩
  intro k r raises env hr hok
  have hend := reach_atEnd h
  rw [← hsame.1] at hend hterm
  exact handleStepSuccess_ended hend hterm hr hok

end

/-- A call, or a step of a process, at a time. -/
def clock (now : Time) (e : ChainEvent) : ChainEvent × Env := (e, { now })

def plainStep : QraftChainStep := { func := "app.step" }
def gatedStep : QraftChainStep := { func := "app.publish", requiresApproval := true }

def created : ChainState := { chain := { id := 0 } }

theorem created_init (defaults : RetryDefaults) (limit : Nat) : (chainSystem defaults limit).init created :=
  ⟨{ id := 0 }, rfl, rfl, rfl, rfl, rfl⟩

/-- The task of the first of two steps fails, and the chain with it. -/
def firstFails (second : QraftChainStep) : List (ChainEvent × Env) := [
  clock 1 (.load [plainStep, second]),
  clock 1 (.run 0 none),
  clock 2 (.table (.saveResult { id := 2, success := false, stopped := 2 })),
  clock 2 (.table (.handleResult 0)),
  clock 3 (.route 0 0),
  clock 3 (.handle 0),
  clock 3 (.stepFailure 0),
  clock 3 (.announce 0 false),
  clock 3 (.finish 0 0)]

/-- The dead task is requeued, and succeeds. -/
def requeuedSuccess : List (ChainEvent × Env) := [
  clock 4 (.table (.loadInstance 0)),
  clock 4 (.table (.requeueCheck 0)),
  clock 4 (.table (.requeueCommit 0)),
  clock 5 (.table (.claimAndEnqueue 0 5 5)),
  clock 6 (.table (.saveResult { id := 6, success := true, stopped := 6 })),
  clock 6 (.table (.handleResult 1)),
  clock 6 (.route 0 0),
  clock 6 (.handle 0)]

theorem ended_stays_failed : ∃ s t : ChainState,
    (chainSystem {} 1).ReachWhen (fun s e => s.sparesEnded e.1 = true) s ∧
    s.chain.status = .failed ∧ t.chain = s.chain ∧ t.queued = s.queued := by
  obtain ⟨s, hr, hp⟩ := StepSystem.exists_reach_of_run
    ((chainSystem {} 1).guard fun s e => s.sparesEnded e.1 = true)
    ((firstFails plainStep).take 7) (.init (created_init {} 1))
    (fun s => s.chain.status = .failed ∧
      ((chainSystem {} 1).step s (clock 3 (.announce 0 false))).isSome) (by decide)
  obtain ⟨hfailed, hstep⟩ := of_decide_eq_true hp
  obtain ⟨t, hstep⟩ := Option.isSome_iff_exists.mp hstep
  have hreach := StepSystem.reachWhen_of_guard hr
  obtain ⟨hc, hq, -⟩ := ended_stays hreach (.inr (.inl hfailed)) (.step .refl ⟨rfl, rfl⟩ hstep)
  exact ⟨s, t, hreach, hfailed, hc, hq⟩

/-- A failed chain advances, and where the next step is gated the success raises. -/
theorem failed_chain_advances :
    (∃ s t : ChainState, (chainSystem {} 1).Reach s ∧ s.chain.status = .failed ∧
      (chainSystem {} 1).step s (clock 7 (.stepSuccess 0 none)) = some t ∧
      t.chain.currentStepIndex = s.chain.currentStepIndex + 1 ∧
      t.queued.length = s.queued.length + 1) ∧
    ∃ s : ChainState, (chainSystem {} 1).Reach s ∧ s.chain.status = .failed ∧
      ∃ r ∈ s.routings, ∃ message,
        s.handleStepSuccess {} r.index none { now := 7 } = .error (.valueError message) := by
  constructor
  · obtain ⟨s, hr, hp⟩ := StepSystem.exists_reach_of_run (chainSystem {} 1)
      (firstFails plainStep ++ requeuedSuccess) (.init (created_init {} 1))
      (fun s => ((chainSystem {} 1).step s (clock 7 (.stepSuccess 0 none))).any fun t =>
        s.chain.status = .failed ∧ t.chain.currentStepIndex = s.chain.currentStepIndex + 1 ∧
          t.queued.length = s.queued.length + 1) (by decide)
    obtain ⟨t, ht, hp⟩ := (Option.any_eq_true _ _).mp hp
    obtain ⟨hfailed, hindex, hqueued⟩ := of_decide_eq_true hp
    exact ⟨s, t, hr, hfailed, ht, hindex, hqueued⟩
  · obtain ⟨s, hr, hp⟩ := StepSystem.exists_reach_of_run (chainSystem {} 1)
      (firstFails gatedStep ++ requeuedSuccess) (.init (created_init {} 1))
      (fun s => s.chain.status = .failed ∧ s.routings.any fun r =>
        match s.handleStepSuccess {} r.index none { now := 7 } with
        | .error (.valueError _) => true
        | _ => false) (by decide)
    obtain ⟨hfailed, hp⟩ := of_decide_eq_true hp
    obtain ⟨r, hr', hp⟩ := List.any_eq_true.mp hp
    split at hp
    · rename_i message herr
      exact ⟨s, hr, hfailed, r, hr', message, herr⟩
    · cases hp

/-- What keeps gates closed: `resume` finds the row FAILED, `approve` does not, and the chain is
failed by its current step only. -/
def sparesGates (s : ChainState) : ChainEvent → Bool
  | .resume _ _ => s.chain.status = .failed
  | .approve _ _ => s.chain.status ≠ .failed
  | .stepFailure k => s.chain.status.Terminal || s.routings[k]?.all fun r =>
      s.chain.currentStepIndex = r.index
  | _ => true

/-- What the status and the index of a chain say about the steps queued and approved. -/
structure Gates (s : ChainState) : Prop where
  pending : s.chain.status = .pending → s.chain.steps = []
  fresh : s.chain.steps = [] → s.queued = [] ∧ s.chain.currentStepIndex = 0
  parked : s.chain.status = .waitingApproval → s.chain.Gated s.chain.currentStepIndex ∧
    ∀ q ∈ s.queued, q.index ≠ s.chain.currentStepIndex
  passed : s.chain.status = .running ∨ s.chain.status = .failed →
    s.chain.Gated s.chain.currentStepIndex → s.chain.currentStepIndex ∈ s.approved
  failing : s.chain.status = .failed → s.chain.Gated s.chain.currentStepIndex →
    s.chain.currentStepIndex ∈ s.failed
  indices : ∀ q ∈ s.queued, q.index ≤ s.chain.currentStepIndex
  routings : ∀ r ∈ s.routings, ∃ q ∈ s.queued, q.index = r.index

namespace Gates
variable {s : ChainState}

theorem setRouting (h : s.Gates) {k : Nat} {r : ChainRouting} (hr : s.routings[k]? = some r)
    (phase : ChainPhase) : (s.setRouting k { r with phase }).Gates := by
  refine ⟨h.pending, h.fresh, h.parked, h.passed, h.failing, h.indices, ?_⟩
  intro r' hr'
  rcases List.mem_or_eq_of_mem_set hr' with hr' | rfl
  · exact h.routings r' hr'
  · exact h.routings r (List.mem_of_getElem? hr)

theorem endRouting (h : s.Gates) (k : Nat) : (s.endRouting k).Gates :=
  ⟨h.pending, h.fresh, h.parked, h.passed, h.failing, h.indices,
    fun r hr => h.routings r ((List.eraseIdx_sublist _ _).subset hr)⟩

end Gates

theorem Member.steps_ne_nil {defaults : RetryDefaults} {s : ChainState} {index : Nat}
    {metadata : QraftTask} {cluster : Option String} (h : s.Member defaults index metadata cluster) :
    s.chain.steps ≠ [] := by
  obtain ⟨st, hst, -⟩ := h
  intro he
  rw [he] at hst
  cases hst

private theorem not_gated {c : QraftChainModel} {i : Nat} {st : QraftChainStep} (hst : c.steps[i]? = some st)
    (hopen : st.requiresApproval = false) : ¬ c.Gated i := by
  rintro ⟨other, ho, hgate⟩
  rw [hst] at ho
  cases ho
  rw [hopen] at hgate
  cases hgate

/-- A step is queued at the current index of a chain that is not parked. -/
private theorem Gates.createAndLink {x : ChainState} {index : Nat} {origin : StepOrigin}
    {metadata : QraftTask} {cluster : Option String} {env : Env}
    (hindex : x.chain.currentStepIndex = index) (hsteps : x.chain.steps ≠ [])
    (hpending : x.chain.status ≠ .pending) (hparked : x.chain.status ≠ .waitingApproval)
    (hpassed : x.chain.status = .running ∨ x.chain.status = .failed → x.chain.Gated index →
      index ∈ x.approved)
    (hfailing : x.chain.status = .failed → ¬ x.chain.Gated index)
    (hindices : ∀ q ∈ x.queued, q.index ≤ index)
    (hroutings : ∀ r ∈ x.routings, ∃ q ∈ x.queued, q.index = r.index) :
    (x.createAndLink index origin metadata cluster env).Gates := by
  have hcur : (x.createAndLink index origin metadata cluster env).chain.currentStepIndex = index := hindex
  have hnil : (x.createAndLink index origin metadata cluster env).chain.steps ≠ [] := by
    simpa [ChainState.createAndLink, QraftChainModel.bindStep] using hsteps
  have hgate : (x.createAndLink index origin metadata cluster env).chain.Gated index →
      x.chain.Gated index := (QraftChainModel.gated_bindStep _ _ _ _).mp
  refine ⟨?_, ?_, ?_, ?_, ?_, ?_, ?_⟩
  · exact fun h => absurd h hpending
  · exact fun h => absurd h hnil
  · exact fun h => absurd h hparked
  · intro h hg
    rw [hcur] at hg ⊢
    exact hpassed h (hgate hg)
  · intro h hg
    rw [hcur] at hg
    exact absurd (hgate hg) (hfailing h)
  · intro q hq
    rw [hcur]
    rcases List.mem_append.mp hq with hq | hq
    · exact hindices q hq
    · rw [List.mem_singleton.mp hq]
  · intro r hr
    obtain ⟨q, hq, he⟩ := hroutings r hr
    exact ⟨q, List.mem_append_left _ hq, he⟩

section
variable {defaults : RetryDefaults} {limit : Nat} {s t : ChainState} {env : Env} {e : ChainEvent}

/-- A chain that ends needs no gate. -/
private theorem Gates.closed (h : s.Gates) (ht : t.chain.steps = s.chain.steps ∧
      t.chain.currentStepIndex = s.chain.currentStepIndex ∧ t.queued = s.queued ∧
      t.routings = s.routings)
    (hc : t.chain.status = .succeeded ∨ t.chain.status = .cancelled) : t.Gates := by
  obtain ⟨hsteps, hindex, hqueued, hroutings⟩ := ht
  refine ⟨?_, ?_, ?_, ?_, ?_, ?_, ?_⟩
  · intro hp
    simp [hp] at hc
  · rw [hsteps, hindex, hqueued]
    exact h.fresh
  · intro hp
    simp [hp] at hc
  · intro hp
    rcases hp with hp | hp
    · simp [hp] at hc
    · simp [hp] at hc
  · intro hp
    simp [hp] at hc
  · rw [hindex, hqueued]
    exact h.indices
  · rw [hroutings, hqueued]
    exact h.routings

/-- `run` parks the chain on its first step. -/
private theorem Gates.runGated (hg : s.Gates) {steps rest : List QraftChainStep} {first : QraftChainStep}
    (hs : steps = first :: rest) (hn : s.chain.steps = []) (hgate : first.requiresApproval = true) :
    (s.started steps .waitingApproval env).Gates := by
  obtain ⟨hq, hi⟩ := hg.fresh hn
  refine ⟨?_, ?_, ?_, ?_, ?_, hg.indices, hg.routings⟩
  · exact fun h => by cases h
  · intro h
    rw [started, hs] at h
    cases h
  · intro _
    refine ⟨⟨{ first with qraftTask := none }, ?_, hgate⟩, ?_⟩
    · rw [started, hs, hi]
      rfl
    · intro q hq'
      rw [started, hq] at hq'
      cases hq'
  · exact fun h => by cases h <;> contradiction
  · exact fun h => by cases h

private theorem Gates.run (hg : s.Gates) {steps rest : List QraftChainStep} {first : QraftChainStep}
    {metadata : QraftTask} {cluster : Option String} (hs : steps = first :: rest) (hn : s.chain.steps = [])
    (hopen : first.requiresApproval = false)
    (hm : (s.started steps .running env).Member defaults 0 metadata cluster) :
    ((s.started steps .running env).createAndLink 0 .run metadata cluster env).Gates := by
  obtain ⟨-, hi⟩ := hg.fresh hn
  have hfirst : (s.started steps .running env).chain.steps[0]? = some { first with qraftTask := none } := by
    rw [started, hs]
    rfl
  apply Gates.createAndLink (x := s.started steps .running env) hi hm.steps_ne_nil
  · exact fun h => by cases h
  · exact fun h => by cases h
  · exact fun _ h => absurd h (not_gated hfirst hopen)
  · exact fun h => by cases h
  · exact hi ▸ hg.indices
  · exact hg.routings

private theorem Gates.resumed (hg : s.Gates) {row : WorkflowRow} {metadata : QraftTask}
    {cluster : Option String} (hfailed : s.chain.status = .failed)
    (ht : s.chain.transitionTo .running = .ok row)
    (hm : (s.reopened row env).Member defaults s.chain.currentStepIndex metadata cluster) :
    ((s.reopened row env).createAndLink s.chain.currentStepIndex .resume metadata cluster env).Gates := by
  obtain ⟨-, rfl⟩ := WorkflowRow.transitionTo_ok ht
  apply Gates.createAndLink (x := s.reopened _ env) rfl hm.steps_ne_nil
  · exact fun h => by cases h
  · exact fun h => by cases h
  · intro _ h
    exact hg.passed (.inr hfailed) ((QraftChainModel.gated_bindStep _ _ _ _).mp h)
  · exact fun h => by cases h
  · exact hg.indices
  · exact hg.routings

/-- `approve` records the step it found the chain parked on. -/
private theorem Gates.unparked (hg : s.Gates) {row : WorkflowRow} {metadata : QraftTask}
    {cluster : Option String} (hne : s.chain.status ≠ .failed) (ht : s.chain.transitionTo .running = .ok row)
    (hm : (s.unparked row env).Member defaults s.chain.currentStepIndex metadata cluster) :
    ((s.unparked row env).createAndLink s.chain.currentStepIndex .approve metadata cluster env).Gates := by
  obtain ⟨hrun, rfl⟩ := WorkflowRow.transitionTo_ok ht
  have hwait : s.chain.status = .waitingApproval := by
    rcases WorkflowStatus.running_mem hrun with hp | hp | hp
    · exact absurd (hg.pending hp) hm.steps_ne_nil
    · exact hp
    · exact absurd hp hne
  apply Gates.createAndLink (x := s.unparked _ env) rfl hm.steps_ne_nil
  · exact fun h => by cases h
  · exact fun h => by cases h
  · intro _ _
    rw [ChainState.unparked, if_pos hwait]
    exact List.mem_append_right _ (List.mem_singleton.mpr rfl)
  · exact fun h => by cases h
  · exact hg.indices
  · exact hg.routings

/-- A completion parks the chain on the next step, whose index no queued step has reached. -/
private theorem Gates.park (hg : s.Gates) {r : ChainRouting} {next : QraftChainStep} {row : WorkflowRow}
    (hi : s.chain.currentStepIndex = r.index) (hnext : s.chain.steps[r.index + 1]? = some next)
    (hgate : next.requiresApproval = true) (ht : s.chain.transitionTo .waitingApproval = .ok row) :
    (s.advancedTo (r.index + 1) row env).Gates := by
  obtain ⟨-, rfl⟩ := WorkflowRow.transitionTo_ok ht
  refine ⟨?_, ?_, ?_, ?_, ?_, ?_, hg.routings⟩
  · exact fun h => by cases h
  · intro hnil
    have hnil : s.chain.steps = [] := hnil
    rw [hnil] at hnext
    cases hnext
  · intro _
    refine ⟨⟨next, hnext, hgate⟩, ?_⟩
    intro q hq
    exact Nat.ne_of_lt (Nat.lt_succ_of_le (hi ▸ hg.indices q hq))
  · exact fun h => by cases h <;> contradiction
  · exact fun h => by cases h
  · intro q hq
    exact Nat.le_succ_of_le (hi ▸ hg.indices q hq)

private theorem Gates.advanced (hg : s.Gates) {r : ChainRouting} {next : QraftChainStep}
    {metadata : QraftTask} {cluster : Option String} (hr : r ∈ s.routings)
    (hi : s.chain.currentStepIndex = r.index) (hnext : s.chain.steps[r.index + 1]? = some next)
    (hopen : next.requiresApproval = false)
    (hm : (s.advancedTo (r.index + 1) s.chain.toWorkflowRow env).Member defaults (r.index + 1) metadata
      cluster) :
    ((s.advancedTo (r.index + 1) s.chain.toWorkflowRow env).createAndLink (r.index + 1) .advance metadata
      cluster env).Gates := by
  have hopen : ¬ s.chain.Gated (r.index + 1) := not_gated hnext hopen
  apply Gates.createAndLink (x := s.advancedTo _ _ env) rfl hm.steps_ne_nil
  · exact fun h => hm.steps_ne_nil (hg.pending h)
  · intro h
    obtain ⟨q, hq, hqi⟩ := hg.routings r hr
    exact (hg.parked h).2 q hq (hqi.trans hi.symm)
  · exact fun _ h => absurd h hopen
  · exact fun _ => hopen
  · exact fun q hq => Nat.le_succ_of_le (hi ▸ hg.indices q hq)
  · exact hg.routings

/-- The current step fails the chain: it ran, so it had passed its gate. -/
private theorem Gates.fail (hg : s.Gates) {r : ChainRouting} {row : WorkflowRow} (hr : r ∈ s.routings)
    (hi : s.chain.currentStepIndex = r.index) (hrow : s.chain.settleWorkflow .failed env.now = some row) :
    ({ s.settled row with failed := s.failed ++ [r.index] } : ChainState).Gates := by
  obtain ⟨-, hterm, hrow'⟩ := WorkflowRow.settleWorkflow_eq_some hrow
  obtain ⟨q, hq, hqi⟩ := hg.routings r hr
  have hstatus : row.status = .failed := congrArg (fun w => w.status) hrow'
  refine ⟨?_, hg.fresh, ?_, ?_, ?_, hg.indices, hg.routings⟩
  · exact fun h => by cases hstatus.symm.trans h
  · exact fun h => by cases hstatus.symm.trans h
  · intro _ hgate
    have hgate : s.chain.Gated s.chain.currentStepIndex := hgate
    refine hg.passed ?_ hgate
    cases hs : s.chain.status with
    | pending =>
      obtain ⟨st, hst, -⟩ := hgate
      rw [hg.pending hs] at hst
      cases hst
    | running => exact .inl rfl
    | waitingApproval => exact absurd (hqi.trans hi.symm) ((hg.parked hs).2 q hq)
    | failed => exact .inr rfl
    | succeeded => simp [hs, WorkflowStatus.Terminal] at hterm
    | cancelled => simp [hs, WorkflowStatus.Terminal] at hterm
  · intro _ _
    exact List.mem_append_right _ (List.mem_singleton.mpr hi)

private theorem gates_effect (h : ChainEffect defaults limit s env e t) (hg : s.Gates)
    (hok : s.sparesGates e = true) : t.Gates := by
  cases h with
  | quiet => exact hg
  | table hf h => exact ⟨hg.pending, hg.fresh, hg.parked, hg.passed, hg.failing, hg.indices, hg.routings⟩
  | routed hd ha hs hq =>
    refine ⟨hg.pending, hg.fresh, hg.parked, hg.passed, hg.failing, hg.indices, ?_⟩
    intro r hr
    rcases List.mem_append.mp hr with hr | hr
    · exact hg.routings r hr
    · obtain ⟨q, hq, hqi, -⟩ := hq
      exact ⟨q, hq, by rw [List.mem_singleton.mp hr, hqi]⟩
  | handled hr hp => exact hg.setRouting hr _
  | announced hr hp =>
    have hset := hg.setRouting hr .returned
    exact ⟨hset.pending, hset.fresh, hset.parked, hset.passed, hset.failing, hset.indices,
      hset.routings⟩
  | finished hr hp hd ht h =>
    have he := hg.endRouting
    exact ⟨hg.pending, hg.fresh, hg.parked, hg.passed, hg.failing, hg.indices, (he _).routings⟩
  | crashed => exact hg.endRouting _
  | raised => exact hg.endRouting _
  | skipped hr hp hskip => exact hg.setRouting hr _
  | spared hr hp hskip => exact hg.setRouting hr _
  | runGated hx hs hp hn hgate => exact hg.runGated hs hn hgate
  | run hx hs hp hn hopen hm => exact hg.run hs hn hopen hm
  | resumed hx hp ht hm => exact hg.resumed (by simpa [sparesGates] using hok) ht hm
  | approved ht hm => exact hg.unparked (by simpa [sparesGates] using hok) ht hm
  | rejected ht =>
    obtain ⟨-, rfl⟩ := WorkflowRow.transitionTo_ok ht
    exact hg.closed ⟨rfl, rfl, rfl, rfl⟩ (.inr rfl)
  | cancelled hrow =>
    obtain ⟨-, -, rfl⟩ := WorkflowRow.cancel_eq_some hrow
    exact hg.closed ⟨rfl, rfl, rfl, rfl⟩ (.inr rfl)
  | @succeeded _ _ _ row hr hp hi hlast hrow =>
    obtain ⟨-, -, hrow'⟩ := WorkflowRow.settleWorkflow_eq_some hrow
    have hstatus : (s.settled row).chain.status = .succeeded := congrArg (fun w => w.status) hrow'
    have hclosed : (s.settled row).Gates := hg.closed ⟨rfl, rfl, rfl, rfl⟩ (.inl hstatus)
    exact hclosed.setRouting hr _
  | parked hr hp hi hnext hgate ht => exact (hg.park hi hnext hgate ht).setRouting hr _
  | advanced hr hp hi hnext hopen hc hm =>
    exact (hg.advanced (List.mem_of_getElem? hr) hi hnext hopen hm).setRouting hr _
  | @failed _ r row hr hp hrow =>
    obtain ⟨-, hterm, -⟩ := WorkflowRow.settleWorkflow_eq_some hrow
    have hi : s.chain.currentStepIndex = r.index := by
      simpa [sparesGates, hterm, hr] using hok
    rw [if_pos hi]
    exact (hg.fail (List.mem_of_getElem? hr) hi hrow).setRouting hr _

/-- The steps a step of the system queues: an approved one, or one that resumes. -/
private theorem queued_effect (h : ChainEffect defaults limit s env e t) (hg : s.Gates)
    (hok : s.sparesGates e = true) {q : QueuedStep} (hq : q ∈ t.queued) (hnew : q ∉ s.queued)
    (hgate : t.chain.Gated q.index) :
    (∃ h raises, e = .approve h raises ∧ s.chain.status = .waitingApproval ∧
      s.chain.currentStepIndex = q.index) ∨
    ∃ h raises, e = .resume h raises ∧ q.index ∈ s.approved ∧ q.index ∈ s.failed := by
  have created {index : Nat} {task : TaskId} {origin : StepOrigin} {n : Nat}
      (hq : q ∈ s.queued ++ [⟨index, task, origin, n⟩]) : q.index = index := by
    rcases List.mem_append.mp hq with hq | hq
    · exact absurd hq hnew
    · rw [List.mem_singleton.mp hq]
  cases h with
  | quiet | table | routed | handled | finished | crashed | raised | skipped | spared | runGated |
    succeeded | parked | failed => exact absurd hq hnew
  | announced hr hp =>
    exact absurd hq hnew
  | rejected | cancelled =>
    exact absurd hq hnew
  | @run _ _ x first rest metadata cluster hx hs hp hn hopen hm =>
    have hgate := (QraftChainModel.gated_bindStep _ _ _ _).mp hgate
    have hfirst : (s.started x.steps .running env).chain.steps[0]? = some { first with qraftTask := none } := by
      rw [started, hs]
      rfl
    exact absurd (created hq ▸ hgate) (not_gated hfirst hopen)
  | resumed hx hp ht hm =>
    have hgate := (QraftChainModel.gated_bindStep _ _ _ _).mp
      ((QraftChainModel.gated_bindStep _ _ _ _).mp hgate)
    have hfailed : s.chain.status = .failed := by simpa [sparesGates] using hok
    have hi : q.index = s.chain.currentStepIndex := created hq
    have hgate : s.chain.Gated s.chain.currentStepIndex := hi ▸ hgate
    exact .inr ⟨_, _, rfl, hi ▸ hg.passed (.inr hfailed) hgate, hi ▸ hg.failing hfailed hgate⟩
  | approved ht hm =>
    obtain ⟨hrun, -⟩ := WorkflowRow.transitionTo_ok ht
    have hne : s.chain.status ≠ .failed := by simpa [sparesGates] using hok
    have hi : q.index = s.chain.currentStepIndex := created hq
    rcases WorkflowStatus.running_mem hrun with hp | hp | hp
    · exact absurd (hg.pending hp) hm.steps_ne_nil
    · exact .inl ⟨_, _, rfl, hp, hi.symm⟩
    · exact absurd hp hne
  | advanced hr hp hi hnext hopen hc hm =>
    have hgate := (QraftChainModel.gated_bindStep _ _ _ _).mp hgate
    exact absurd (created hq ▸ hgate) (not_gated (c := s.chain) hnext hopen)

theorem reach_gates
    (h : (chainSystem defaults limit).ReachWhen (fun s e => s.sparesGates e.1 = true) s) : s.Gates := by
  apply h.invariant Gates
  · rintro s ⟨chain, hp, -, hi, hs, rfl⟩
    refine ⟨fun _ => hs, fun _ => ⟨rfl, hi⟩, ?_, ?_, ?_, ?_, ?_⟩
    · exact fun h => by cases hp.symm.trans h
    · rintro (h | h)
      · cases hp.symm.trans h
      · cases hp.symm.trans h
    · exact fun h => by cases hp.symm.trans h
    · exact fun q hq => absurd hq List.not_mem_nil
    · exact fun r hr => absurd hr List.not_mem_nil
  · intro s e s' hg hok hstep
    obtain ⟨u, _, hu, rfl⟩ := step_effect hstep
    have hg' := gates_effect hu hg hok
    exact ⟨hg'.pending, hg'.fresh, hg'.parked, hg'.passed, hg'.failing, hg'.indices, hg'.routings⟩

/-- As long as `resume` finds the chain FAILED, `approve` does not, and only its current step
fails it: a task is created for a step that requires approval by an `approve` of the chain parked
on it, or by a `resume` after it was approved and failed. -/
theorem gates_hold
    (h : (chainSystem defaults limit).ReachWhen (fun s e => s.sparesGates e.1 = true) s)
    (hok : s.sparesGates e = true) (hstep : (chainSystem defaults limit).step s (e, env) = some t)
    {q : QueuedStep} (hq : q ∈ t.queued) (hnew : q ∉ s.queued) (hgate : t.chain.Gated q.index) :
    (∃ h raises, e = .approve h raises ∧ s.chain.status = .waitingApproval ∧
      s.chain.currentStepIndex = q.index) ∨
    ∃ h raises, e = .resume h raises ∧ q.index ∈ s.approved ∧ q.index ∈ s.failed := by
  obtain ⟨u, _, hu, rfl⟩ := step_effect hstep
  exact queued_effect hu (reach_gates h) hok hq hnew hgate

end

theorem gates_hold_approved : ∃ s t : ChainState,
    (chainSystem {} 1).ReachWhen (fun s e => s.sparesGates e.1 = true) s ∧
    (chainSystem {} 1).step s (clock 2 (.approve 0 none)) = some t ∧
    ∃ q ∈ t.queued, t.chain.Gated q.index ∧ s.chain.status = .waitingApproval ∧
      s.chain.currentStepIndex = q.index := by
  obtain ⟨s, hr, hp⟩ := StepSystem.exists_reach_of_run
    ((chainSystem {} 1).guard fun s e => s.sparesGates e.1 = true)
    [clock 1 (.load [gatedStep]), clock 1 (.run 0 none)] (.init (created_init {} 1))
    (fun s => s.sparesGates (.approve 0 none) = true ∧
      ((chainSystem {} 1).step s (clock 2 (.approve 0 none))).any fun t => t.queued.any fun q =>
        q ∉ s.queued ∧ t.chain.steps[q.index]?.any fun st => st.requiresApproval) (by decide)
  obtain ⟨hok, hp⟩ := of_decide_eq_true hp
  obtain ⟨t, ht, hp⟩ := (Option.any_eq_true _ _).mp hp
  obtain ⟨q, hq, hp⟩ := List.any_eq_true.mp hp
  obtain ⟨hnew, hgate⟩ := of_decide_eq_true hp
  have hgate : t.chain.Gated q.index := (Option.any_eq_true _ _).mp hgate
  have hreach := StepSystem.reachWhen_of_guard hr
  refine ⟨s, t, hreach, ht, q, hq, hgate, ?_⟩
  rcases gates_hold hreach hok ht hq hnew hgate with ⟨_, _, -, hpark⟩ | ⟨_, _, he, -⟩
  · exact hpark
  · cases he

/-- Two handles read FAILED, one resumes, and the chain parks at its second step. -/
def parkedBehindStale : List (ChainEvent × Env) := firstFails gatedStep ++ [
  clock 4 (.refresh 0),
  clock 4 (.load []),
  clock 5 (.resume 1 none),
  clock 6 (.table (.saveResult { id := 7, success := true, stopped := 6 })),
  clock 6 (.table (.handleResult 1)),
  clock 7 (.route 0 0),
  clock 7 (.handle 0),
  clock 7 (.stepSuccess 0 none)]

/-- The other handle resumes the parked chain. -/
theorem gate_bypassed : ∃ s t : ChainState, (chainSystem {} 1).Reach s ∧
    s.chain.status = .waitingApproval ∧
    (chainSystem {} 1).step s (clock 8 (.resume 0 none)) = some t ∧
    ∃ q ∈ t.queued, q ∉ s.queued ∧ t.chain.Gated q.index ∧ q.index ∉ t.approved ∧
      q.index ∉ t.failed := by
  obtain ⟨s, hr, hp⟩ := StepSystem.exists_reach_of_run (chainSystem {} 1)
    parkedBehindStale (.init (created_init {} 1))
    (fun s => s.chain.status = .waitingApproval ∧
      ((chainSystem {} 1).step s (clock 8 (.resume 0 none))).any fun t => t.queued.any fun q =>
        (q ∉ s.queued ∧ q.index ∉ t.approved ∧ q.index ∉ t.failed) ∧
          t.chain.steps[q.index]?.any fun st => st.requiresApproval) (by decide)
  obtain ⟨hpark, hp⟩ := of_decide_eq_true hp
  obtain ⟨t, ht, hp⟩ := (Option.any_eq_true _ _).mp hp
  obtain ⟨q, hq, hp⟩ := List.any_eq_true.mp hp
  obtain ⟨⟨hnew, happroved, hfailed⟩, hgate⟩ := of_decide_eq_true hp
  exact ⟨s, t, hr, hpark, ht, q, hq, hnew, (Option.any_eq_true _ _).mp hgate, happroved, hfailed⟩

end ChainState
end Qraft
