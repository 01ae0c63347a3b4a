import Qraft.Foundations.Stages
import Qraft.Workflows.ChainSequence

/-! A chain is a program of stages: its row moves as one does, a stage passes when its task has succeeded
and breaks when its task has failed. -/
namespace Qraft

namespace QraftChainModel

def gates (c : QraftChainModel) : List Bool := c.steps.map fun st => st.requiresApproval

def stage (c : QraftChainModel) : StagePoint :=
  match c.status with
  | .pending => .unstarted
  | .waitingApproval => .asking c.currentStepIndex
  | .running => .working c.currentStepIndex
  | .failed => .broken c.currentStepIndex
  | .succeeded => .done
  | .cancelled => .stopped

theorem gates_getElem? {c : QraftChainModel} {i : Nat} {st : QraftChainStep} (h : c.steps[i]? = some st) :
    c.gates[i]? = some st.requiresApproval := by simp [gates, h]

@[simp] theorem gates_bindStep (c : QraftChainModel) (i : Nat) (task : Option TaskId) :
    (c.bindStep i task).gates = c.gates := by
  apply List.ext_getElem?
  intro j
  simp only [gates, List.getElem?_map, bindStep_getElem?, Option.map_map]
  cases c.steps[j]? with
  | none => rfl
  | some st =>
    simp only [Option.map_some, Function.comp_apply]
    split <;> rfl

end QraftChainModel

namespace ChainState
open Lifecycle

/-- The task bound to a step has come to this outcome. -/
def Came (s : ChainState) (index : Nat) (success : Bool) : Prop :=
  ∃ task t attempt, s.chain.boundTask index = some task ∧ s.life.store.task? task = some t ∧
    DecidedBy t attempt success

/-- Calls through fresh handles, no `approve` of a FAILED chain, no `resume` over a completion of the step
it rebinds, no member requeued or reaped on a superseded read. -/
def sparesProgram (s : ChainState) (e : ChainEvent) : Bool :=
  s.freshCalls e && s.sparesSequence e && s.sparesWindow e

/-- What the processes past their binding check hold is the outcome of the step's own task. -/
structure Windows (s : ChainState) : Prop where
  window : ∀ r ∈ s.routings, r.phase.inWindow = true → s.chain.boundTask r.index = some r.task ∧
    ∃ t, s.life.store.task? r.task = some t ∧ DecidedBy t r.attempt r.success
  failing : ∀ r ∈ s.routings, r.phase = .failing → r.success = false

/-- Where a chain stands, its current step's task stands too. -/
structure Standing (s : ChainState) : Prop extends Windows s where
  done : s.chain.status = .succeeded →
    s.chain.steps[s.chain.currentStepIndex + 1]? = none ∧ s.Came s.chain.currentStepIndex true
  broken : s.chain.status = .failed → s.Came s.chain.currentStepIndex false
  running : s.chain.status = .running → ∃ task, s.chain.boundTask s.chain.currentStepIndex = some task

section
variable {defaults : RetryDefaults} {limit : Nat} {s t : ChainState} {env : Env} {e : ChainEvent}

/-- The task of a bound step is a member in good order. -/
theorem firm_of_bound (hs : s.Sequence) {index : Nat} {task : TaskId} {row : QraftTask}
    (hb : s.chain.boundTask index = some task) (ht : s.life.store.task? task = some row) :
    s.isMember task = true ∧ Firm s.life row := by
  obtain ⟨q, hq, -, rfl⟩ := hs.bound index task hb
  obtain ⟨u, hu, hfirm⟩ := hs.firm q hq
  obtain rfl := Option.some.inj (ht.symm.trans hu)
  exact ⟨List.any_eq_true.mpr ⟨q, hq, decide_eq_true rfl⟩, hfirm⟩

/-- The outcome of a bound task is final while the table takes steps in order. -/
theorem decided_of_bound (hs : s.Sequence) (hd : s.life.store.Distinct) {index : Nat} {task : TaskId}
    {row : QraftTask} (hb : s.chain.boundTask index = some task) (ht : s.life.store.task? task = some row)
    {attempt : AttemptId} {success : Bool} (hdec : DecidedBy row attempt success) {e : LifecycleEvent}
    {life : Lifecycle} (hstep : s.life.step limit env e = some life)
    (hord : s.life.orderlyFor s.isMember e = true) :
    ∃ row', life.store.task? task = some row' ∧ DecidedBy row' attempt success := by
  obtain ⟨hm, hfirm⟩ := firm_of_bound hs hb ht
  obtain ⟨row', ht', -, hn⟩ := hfirm.next hd hstep ht hm hord
  exact ⟨row', ht', hdec.next hfirm.coherent hn⟩

theorem Came.life {index : Nat} {success : Bool} (h : s.Came index success) (hs : s.Sequence)
    (hd : s.life.store.Distinct) {e : LifecycleEvent} {life : Lifecycle}
    (hstep : s.life.step limit env e = some life) (hord : s.life.orderlyFor s.isMember e = true) :
    ({ s with life } : ChainState).Came index success := by
  obtain ⟨task, t, attempt, hb, ht, hdec⟩ := h
  obtain ⟨t', ht', hdec'⟩ := decided_of_bound hs hd hb ht hdec hstep hord
  exact ⟨task, t', attempt, hb, ht', hdec'⟩

/-- One task has one outcome. -/
theorem Came.unique {index : Nat} {success success' : Bool} (h : s.Came index success)
    (h' : s.Came index success') (hs : s.Sequence) : success = success' := by
  obtain ⟨task, t, attempt, hb, ht, hdec⟩ := h
  obtain ⟨task', t', attempt', hb', ht', hdec'⟩ := h'
  obtain rfl := Option.some.inj (hb.symm.trans hb')
  obtain rfl := Option.some.inj (ht.symm.trans ht')
  exact (hdec.unique hdec' (firm_of_bound hs hb ht).2.coherent).2

theorem Windows.came (h : s.Windows) {r : ChainRouting} (hr : r ∈ s.routings)
    (hw : r.phase.inWindow = true) :
    s.Came r.index r.success := by
  obtain ⟨hb, t, ht, hdec⟩ := h.window r hr hw
  exact ⟨r.task, t, r.attempt, hb, ht, hdec⟩

namespace Windows

theorem life (h : s.Windows) (hs : s.Sequence) (hd : s.life.store.Distinct) {e : LifecycleEvent}
    {life : Lifecycle} (hstep : s.life.step limit env e = some life)
    (hord : s.life.orderlyFor s.isMember e = true) :
    ({ s with life } : ChainState).Windows := by
  refine ⟨?_, h.failing⟩
  intro r hr hw
  obtain ⟨hb, t, ht, hdec⟩ := h.window r hr hw
  exact ⟨hb, decided_of_bound hs hd hb ht hdec hstep hord⟩

theorem setRouting (h : s.Windows) {k : Nat} {r : ChainRouting} (hr : s.routings[k]? = some r)
    (phase : ChainPhase) (hw : phase.inWindow = true → r.phase.inWindow = true)
    (hf : phase = .failing → r.success = false) : (s.setRouting k { r with phase }).Windows := by
  constructor
  · intro x hx hp
    rcases List.mem_or_eq_of_mem_set hx with hx | rfl
    · exact h.window x hx hp
    · exact h.window r (List.mem_of_getElem? hr) (hw hp)
  · intro x hx hp
    rcases List.mem_or_eq_of_mem_set hx with hx | rfl
    · exact h.failing x hx hp
    · exact hf hp

theorem endRouting (h : s.Windows) (k : Nat) : (s.endRouting k).Windows :=
  ⟨fun r hr => h.window r (List.mem_of_mem_eraseIdx hr),
    fun r hr => h.failing r (List.mem_of_mem_eraseIdx hr)⟩

/-- The same processes over a row whose bindings they hold are the same. -/
theorem row (h : s.Windows) (hl : t.life = s.life) (hr : t.routings = s.routings)
    (hb : ∀ r ∈ s.routings, r.phase.inWindow = true → t.chain.boundTask r.index = s.chain.boundTask r.index) :
    t.Windows := by
  constructor
  · intro r hr' hw
    rw [hr] at hr'
    rw [hl, hb r hr' hw]
    exact h.window r hr' hw
  · rw [hr]
    exact h.failing

/-- A task is created for a step that no process in its window is about. -/
theorem createAndLink (h : s.Windows) (hs : s.Sequence) (hd : s.life.store.Distinct) {index : Nat}
    {origin : StepOrigin} {metadata : QraftTask} {cluster : Option String}
    (hwin : ∀ r ∈ s.routings, r.phase.inWindow = true → r.index ≠ index) :
    (s.createAndLink index origin metadata cluster env).Windows := by
  have hlife := h.life hs hd (Lifecycle.step_asyncTask 0 s.life metadata cluster env) rfl
  refine hlife.row rfl rfl fun r hr hw => ?_
  exact (QraftChainModel.boundTask_bindStep _ _ _ _).trans (if_neg (hwin r hr hw).symm)

end Windows

namespace Standing

theorem setRouting (h : s.Standing) {k : Nat} {r : ChainRouting} (hr : s.routings[k]? = some r)
    (phase : ChainPhase) (hw : phase.inWindow = true → r.phase.inWindow = true)
    (hf : phase = .failing → r.success = false) : (s.setRouting k { r with phase }).Standing :=
  ⟨h.toWindows.setRouting hr phase hw hf, h.done, h.broken, h.running⟩

theorem endRouting (h : s.Standing) (k : Nat) : (s.endRouting k).Standing :=
  ⟨h.toWindows.endRouting k, h.done, h.broken, h.running⟩

theorem life (h : s.Standing) (hs : s.Sequence) (hd : s.life.store.Distinct) {e : LifecycleEvent}
    {life : Lifecycle} (hstep : s.life.step limit env e = some life)
    (hord : s.life.orderlyFor s.isMember e = true) :
    ({ s with life } : ChainState).Standing :=
  ⟨h.toWindows.life hs hd hstep hord, fun hst => ⟨(h.done hst).1, (h.done hst).2.life hs hd hstep hord⟩,
    fun hst => (h.broken hst).life hs hd hstep hord, h.running⟩

/-- A row that only stopped, or did not move. -/
theorem row (h : s.Standing) (hl : t.life = s.life) (hr : t.routings = s.routings)
    (hs : t.chain.steps = s.chain.steps) (hi : t.chain.currentStepIndex = s.chain.currentStepIndex)
    (hst : t.chain.status = s.chain.status ∨ t.chain.status = .cancelled) : t.Standing := by
  have hb (i : Nat) : t.chain.boundTask i = s.chain.boundTask i := by
    rw [QraftChainModel.boundTask, QraftChainModel.boundTask, hs]
  have same {st : WorkflowStatus} (hne : st ≠ .cancelled) (ht : t.chain.status = st) : s.chain.status = st := by
    rcases hst with hst | hst
    · exact hst.symm.trans ht
    · exact absurd (ht.symm.trans hst) hne
  refine ⟨h.toWindows.row hl hr fun r _ _ => hb r.index, ?_, ?_, ?_⟩
  · intro ht
    rw [hs, hi]
    simp only [Came, hb, hl]
    exact h.done (same (by decide) ht)
  · intro ht
    simp only [Came, hb, hl, hi]
    exact h.broken (same (by decide) ht)
  · intro ht
    rw [hb, hi]
    exact h.running (same (by decide) ht)

/-- A task is created for the current step of a chain that runs. -/
theorem createAndLink (h : s.Windows) (hs : s.Sequence) (hd : s.life.store.Distinct) {index : Nat}
    {origin : StepOrigin} {metadata : QraftTask} {cluster : Option String}
    (hm : s.Member defaults index metadata cluster) (hi : s.chain.currentStepIndex = index)
    (hst : s.chain.status = .running)
    (hwin : ∀ r ∈ s.routings, r.phase.inWindow = true → r.index ≠ index) :
    (s.createAndLink index origin metadata cluster env).Standing := by
  have hrun : (s.createAndLink index origin metadata cluster env).chain.status = .running := hst
  refine ⟨h.createAndLink hs hd hwin, ?_, ?_, ?_⟩
  · exact fun h => by cases hrun.symm.trans h
  · exact fun h => by cases hrun.symm.trans h
  · obtain ⟨st, hst, -⟩ := hm
    intro _
    refine ⟨s.life.store.nextId, ?_⟩
    have hb := QraftChainModel.boundTask_bindStep s.chain index index (some s.life.store.nextId)
    rw [if_pos rfl, hst] at hb
    exact (congrArg _ hi).trans hb

end Standing

/-- A chain none of whose steps was queued is in no process's window. -/
private theorem window_queued (hw : s.Windows) (hs : s.Sequence) {r : ChainRouting} (hr : r ∈ s.routings)
    (hin : r.phase.inWindow = true) : ∃ q ∈ s.queued, q.index = r.index := by
  obtain ⟨hb, -⟩ := hw.window r hr hin
  obtain ⟨q, hq, hi, -⟩ := hs.bound _ _ hb
  exact ⟨q, hq, hi⟩

/-- A chain with a completion of its current step in a window is running, or stopped. -/
private theorem advancing_running (hst : s.Standing) (hs : s.Sequence) {r : ChainRouting} (hr : r ∈ s.routings)
    (hp : r.phase = .advancing) (hi : s.chain.currentStepIndex = r.index)
    (hdone : s.chain.status ≠ .succeeded) (hc : s.chain.status ≠ .cancelled) : s.chain.status = .running := by
  have hin : r.phase.inWindow = true := by rw [hp]; rfl
  obtain ⟨q, hq, hqi⟩ := window_queued hst.toWindows hs hr hin
  have hcame := hst.toWindows.came hr hin
  rw [hs.advancing r hr hp] at hcame
  cases hstat : s.chain.status with
  | running => rfl
  | succeeded => exact absurd hstat hdone
  | cancelled => exact absurd hstat hc
  | pending =>
    rw [(hs.pending hstat).2.1] at hq
    exact absurd hq List.not_mem_nil
  | waitingApproval =>
    have hlt := hs.parked hstat q hq
    omega
  | failed =>
    have hbroken := hst.broken hstat
    rw [hi] at hbroken
    cases hcame.unique hbroken hs

/-- A chain that takes up its next step is running. -/
private theorem advanced_running (hst : s.Standing) (hs : s.Sequence) {r : ChainRouting} (hr : r ∈ s.routings)
    (hp : r.phase = .advancing) (hi : s.chain.currentStepIndex = r.index) {next : QraftChainStep}
    (hnext : s.chain.steps[r.index + 1]? = some next) (hc : s.chain.status ≠ .cancelled) :
    s.chain.status = .running := by
  apply advancing_running hst hs hr hp hi
  · intro hsucc
    have hlast := (hst.done hsucc).1
    rw [hi, hnext] at hlast
    cases hlast
  · exact hc

/-- A failure that is about to fail a live chain is its current step's, and the chain is running. -/
private theorem failing_current (hst : s.Standing) (hs : s.Sequence) {r : ChainRouting} (hr : r ∈ s.routings)
    (hp : r.phase = .failing) (hlive : ¬ s.chain.status.Terminal) :
    s.chain.status = .running ∧ s.chain.currentStepIndex = r.index ∧ s.Came r.index false := by
  have hin : r.phase.inWindow = true := by rw [hp]; rfl
  obtain ⟨q, hq, hqi⟩ := window_queued hst.toWindows hs hr hin
  have hcame := hst.toWindows.came hr hin
  rw [hst.failing r hr hp] at hcame
  have hle := hs.indices q hq
  have hcur : s.chain.currentStepIndex = r.index := by
    by_contra hne
    have hpassed : s.Came r.index true := hs.passed r.index (by omega)
    cases hcame.unique hpassed hs
  refine ⟨?_, hcur, hcame⟩
  cases hstat : s.chain.status with
  | running => rfl
  | succeeded | cancelled | failed => simp [hstat, WorkflowStatus.Terminal] at hlive
  | pending =>
    rw [(hs.pending hstat).2.1] at hq
    exact absurd hq List.not_mem_nil
  | waitingApproval =>
    have hlt := hs.parked hstat q hq
    omega

/-- Before a chain has run no process is in a window. -/
private theorem Windows.pending (hw : s.Windows) (hs : s.Sequence) (hp : s.chain.status = .pending) :
    ∀ r ∈ s.routings, r.phase.inWindow = false := by
  intro r hr
  by_contra hin
  obtain ⟨q, hq, -⟩ := window_queued hw hs hr (Bool.not_eq_false _ ▸ hin)
  rw [(hs.pending hp).2.1] at hq
  exact absurd hq List.not_mem_nil

/-- `run` inserts its steps. -/
private theorem Windows.started (hw : s.Windows) (hs : s.Sequence) (hp : s.chain.status = .pending)
    (steps : List QraftChainStep) (status : WorkflowStatus) : (s.started steps status env).Windows :=
  hw.row rfl rfl fun r hr hin => by rw [hw.pending hs hp r hr] at hin; cases hin

private theorem standing_effect (h : ChainEffect defaults limit s env e t)
    (hl : (lifecycleSystem limit).Reach s.life) (hs : s.Sequence) (hst : s.Standing)
    (hok : s.sparesProgram e = true) : t.Standing := by
  simp only [sparesProgram, Bool.and_eq_true] at hok
  obtain ⟨⟨hfresh, hord⟩, hwin⟩ := hok
  have hd := reach_distinct hl
  cases h with
  | quiet => exact hst
  | table hf h => exact hst.life hs hd h hord
  | @routed i index held attempt a success hdue ha hsome hq =>
    refine ⟨⟨?_, ?_⟩, hst.done, hst.broken, hst.running⟩
    · intro r hr hw
      rcases List.mem_append.mp hr with hr | hr
      · exact hst.window r hr hw
      · rw [List.mem_singleton.mp hr] at hw ⊢
        simp only at hw ⊢
        split at hw
        · rename_i hb
          refine ⟨hb, ?_⟩
          obtain ⟨q, hq, -, hqt⟩ := hq
          obtain ⟨u, hu, hfirm⟩ := hs.firm q hq
          rw [hqt] at hu
          obtain ⟨ham, haid⟩ := Rows.get?_eq_some ha
          refine ⟨u, hu, ?_⟩
          exact hfirm.due _ (List.mem_of_getElem? hdue) (TaskStore.task?_eq_some hu).2.symm _ ham haid _ hsome
        · cases hw
    · intro r hr hp
      rcases List.mem_append.mp hr with hr | hr
      · exact hst.failing r hr hp
      · rw [List.mem_singleton.mp hr] at hp
        simp only at hp
        split at hp <;> cases hp
  | @handled k r hr hp =>
    apply hst.setRouting hr
    · exact fun _ => by rw [hp]; rfl
    · intro hf
      unfold handlePhase at hf
      split at hf
      · cases hf
      · split at hf
        · cases hf
        · rename_i hs
          exact Bool.not_eq_true _ ▸ hs
  | announced hr hp =>
    have hset := hst.setRouting hr .returned (fun h => by cases h) (fun h => by cases h)
    exact hset.row rfl rfl rfl rfl (.inl rfl)
  | @finished k i r held life hr hp hdue ht h =>
    have hend := (hst.endRouting k).life (hs.endRouting k) hd h rfl
    exact hend
  | crashed | raised => exact hst.endRouting _
  | skipped hr hp hskip => exact hst.setRouting hr _ (fun h => by cases h) (fun h => by cases h)
  | spared hr hp hskip => exact hst.setRouting hr _ (fun h => by cases h) (fun h => by cases h)
  | @runGated _ _ x _ _ hx hsteps hp hn hg =>
    have hpend : s.chain.status = .pending := by
      simpa [freshCalls, hx, hp, eq_comm] using hfresh
    exact ⟨hst.toWindows.started hs hpend x.steps .waitingApproval, (fun h => by cases h),
      (fun h => by cases h), (fun h => by cases h)⟩
  | @run _ _ x _ _ _ _ hx hsteps hp hn hg hm =>
    have hpend : s.chain.status = .pending := by
      simpa [freshCalls, hx, hp, eq_comm] using hfresh
    have hstart : (s.started x.steps .running env).Windows :=
      hst.toWindows.started hs hpend x.steps .running
    refine Standing.createAndLink hstart (hs.started hpend _ (by decide)) hd hm (hs.pending hpend).2.2 rfl ?_
    intro r hr hin
    rw [hst.toWindows.pending hs hpend r hr] at hin
    cases hin
  | @resumed _ _ _ row _ _ hx hp ht hm =>
    have hrow : row.status = .running := by rw [(WorkflowRow.transitionTo_ok ht).2]
    have hnone : ∀ r ∈ s.routings, r.phase.inWindow = true → r.index ≠ s.chain.currentStepIndex := by
      intro r hr hin
      have hall := List.all_eq_true.mp hwin r hr
      simpa [hin] using hall
    have hseq : (s.reopened row env).Sequence := hs.reopened hrow fun r hr hin _ => hnone r hr hin
    have hopen : (s.reopened row env).Windows := by
      refine hst.toWindows.row rfl rfl fun r hr hin => ?_
      exact (QraftChainModel.boundTask_bindStep _ _ _ _).trans (if_neg (hnone r hr hin).symm)
    exact Standing.createAndLink hopen hseq hd hm rfl hrow hnone
  | @approved _ _ row _ _ ht hm =>
    have hrow : row.status = .running := by rw [(WorkflowRow.transitionTo_ok ht).2]
    have hpark := approved_parked hs (by simpa [sparesSequence] using hord) ht hm.steps_ne_nil
    have hnone : ∀ r ∈ s.routings, r.phase.inWindow = true → r.index ≠ s.chain.currentStepIndex := by
      intro r hr hin he
      obtain ⟨q, hq, hqi⟩ := window_queued hst.toWindows hs hr hin
      exact Nat.ne_of_lt (hs.parked hpark q hq) (hqi.trans he)
    have hseq : (s.unparked row env).Sequence := hs.row rfl rfl rfl rfl rfl rfl
      (fun h => by cases hrow.symm.trans h) (fun h => by cases hrow.symm.trans h)
    have hopen : (s.unparked row env).Windows := hst.toWindows.row rfl rfl fun _ _ _ => rfl
    exact Standing.createAndLink hopen hseq hd hm rfl hrow hnone
  | rejected ht =>
    obtain ⟨-, rfl⟩ := WorkflowRow.transitionTo_ok ht
    exact hst.row rfl rfl rfl rfl (.inr rfl)
  | cancelled hrow =>
    obtain ⟨-, -, rfl⟩ := WorkflowRow.cancel_eq_some hrow
    exact hst.row rfl rfl rfl rfl (.inr rfl)
  | @succeeded k _ r row hr hp hi hlast hrow =>
    have hin := List.mem_of_getElem? hr
    have hset := hst.toWindows.setRouting hr (.announcing (s.chain.withRow row) .success s.settlements.length)
      (fun h => by cases h) (fun h => by cases h)
    have hcame := hst.toWindows.came hin (by rw [hp]; rfl)
    rw [hs.advancing r hin hp, ← hi] at hcame
    obtain ⟨-, -, rfl⟩ := WorkflowRow.settleWorkflow_eq_some hrow
    refine ⟨hset.row rfl rfl fun _ _ _ => rfl, fun _ => ⟨?_, hcame⟩, (fun h => by cases h),
      (fun h => by cases h)⟩
    exact (congrArg (fun j => s.chain.steps[j + 1]?) hi).trans hlast
  | @parked _ _ r _ row hr hp hi hnext hg ht =>
    have hset := hst.toWindows.setRouting hr .returned (fun h => by cases h) (fun h => by cases h)
    obtain ⟨-, rfl⟩ := WorkflowRow.transitionTo_ok ht
    exact ⟨hset.row rfl rfl fun _ _ _ => rfl, (fun h => by cases h), (fun h => by cases h),
      (fun h => by cases h)⟩
  | @advanced _ _ r _ metadata cluster hr hp hi hnext hg hc hm =>
    have hin := List.mem_of_getElem? hr
    have hrun := advanced_running hst hs hin hp hi hnext hc
    have hseq := hs.advancedTo hin hp hi s.chain.toWorkflowRow env (by rw [hrun]; decide)
    have hopen : (s.advancedTo (r.index + 1) s.chain.toWorkflowRow env).Windows :=
      hst.toWindows.row rfl rfl fun _ _ _ => rfl
    have hcreated : ((s.advancedTo (r.index + 1) s.chain.toWorkflowRow env).createAndLink (r.index + 1)
        .advance metadata cluster env).Standing := by
      apply Standing.createAndLink hopen hseq hd hm rfl hrun
      intro x hx hxin he
      obtain ⟨q, hq, hqi⟩ := window_queued hst.toWindows hs hx hxin
      have hle := hs.indices q hq
      omega
    exact hcreated.setRouting hr _ (fun h => by cases h) (fun h => by cases h)
  | @failed _ r row hr hp hrow =>
    have hset := hst.toWindows.setRouting hr (.announcing (s.chain.withRow row) .failure s.settlements.length)
      (fun h => by cases h) (fun h => by cases h)
    obtain ⟨-, hlive, rfl⟩ := WorkflowRow.settleWorkflow_eq_some hrow
    obtain ⟨-, hcur, hcame⟩ := failing_current hst hs (List.mem_of_getElem? hr) hp hlive
    refine ⟨hset.row rfl rfl fun _ _ _ => rfl, (fun h => by cases h), fun _ => ?_, (fun h => by cases h)⟩
    exact hcur ▸ hcame

/-- The moves of the program so far, with a redo for each `resume` and a permit for each approval. -/
def Played (s : ChainState) : Prop :=
  ∃ moves, StagePoint.Plays s.chain.gates moves s.chain.stage ∧ moves.count .redo = s.resumes ∧
    moves.count .permit = s.approved.length

theorem Played.same (h : s.Played) (hg : t.chain.gates = s.chain.gates) (hst : t.chain.stage = s.chain.stage)
    (hr : t.resumes = s.resumes) (ha : t.approved = s.approved) : t.Played := by
  obtain ⟨moves, hp, hredo, hpermit⟩ := h
  exact ⟨moves, by rw [hg, hst]; exact hp, by rw [hr, hredo], by rw [ha, hpermit]⟩

theorem Played.moved (h : s.Played) {st st' : StagePoint} (m : StageMove) (hg : t.chain.gates = s.chain.gates)
    (hs : s.chain.stage = st) (ht : t.chain.stage = st') (hm : StagePoint.move s.chain.gates st m = some st')
    (hr : t.resumes = s.resumes + if m = .redo then 1 else 0)
    (ha : t.approved.length = s.approved.length + if m = .permit then 1 else 0) : t.Played := by
  obtain ⟨moves, hp, hredo, hpermit⟩ := h
  refine ⟨moves ++ [m], ?_, ?_, ?_⟩
  · rw [hg, ht]
    exact hp.next (hs ▸ hm)
  · rw [List.count_append, hredo, hr, List.count_singleton]
    cases m <;> rfl
  · rw [List.count_append, hpermit, ha, List.count_singleton]
    cases m <;> rfl

/-- The program starts when the chain is run. -/
theorem Played.entered (h : s.Played) (hp : s.chain.status = .pending)
    (hm : StagePoint.door t.chain.gates 0 = some t.chain.stage) (hr : t.resumes = s.resumes)
    (ha : t.approved = s.approved) : t.Played := by
  obtain ⟨moves, hplays, hredo, hpermit⟩ := h
  have hnil := hplays.accounts
  rw [QraftChainModel.stage, hp] at hnil
  obtain rfl : moves = [] := hnil
  refine ⟨[.enter], StagePoint.Plays.start.next hm, ?_, ?_⟩
  · rw [hr, ← hredo]
    rfl
  · rw [ha, ← hpermit]
    rfl

theorem gates_createAndLink (s : ChainState) (index : Nat) (origin : StepOrigin) (metadata : QraftTask)
    (cluster : Option String) (env : Env) :
    (s.createAndLink index origin metadata cluster env).chain.gates = s.chain.gates :=
  QraftChainModel.gates_bindStep _ _ _

theorem gates_bindStep_withRow (c : QraftChainModel) (w : WorkflowRow) (i : Nat) (task : Option TaskId) :
    ((c.withRow w).bindStep i task).gates = c.gates := QraftChainModel.gates_bindStep _ _ _

theorem stage_running {c : QraftChainModel} (h : c.status = .running) :
    c.stage = .working c.currentStepIndex := by
  rw [QraftChainModel.stage, h]

/-- Every step of a chain is a move of its program or none. -/
private theorem played_effect (h : ChainEffect defaults limit s env e t) (hs : s.Sequence) (hst : s.Standing)
    (hok : s.sparesProgram e = true) (hp : s.Played) : t.Played := by
  simp only [sparesProgram, Bool.and_eq_true] at hok
  obtain ⟨⟨hfresh, hord⟩, -⟩ := hok
  have stopped (hlive : ¬ s.chain.status.Terminal) :
      StagePoint.move s.chain.gates s.chain.stage .stop = some .stopped := by
    rw [QraftChainModel.stage]
    cases hstat : s.chain.status with
    | pending | running | waitingApproval => rfl
    | succeeded | failed | cancelled => simp [hstat, WorkflowStatus.Terminal] at hlive
  cases h with
  | quiet | table | routed | handled | finished | crashed | raised | skipped | spared =>
    exact hp.same rfl rfl rfl rfl
  | announced hr hph => exact hp.same rfl rfl rfl rfl
  | @runGated _ _ x _ _ hx hsteps hpx hn hg =>
    have hpend : s.chain.status = .pending := by
      simpa [freshCalls, hx, hpx, eq_comm] using hfresh
    refine hp.entered hpend ?_ rfl rfl
    have hi := (hs.pending hpend).2.2
    simp [StagePoint.door, QraftChainModel.gates, QraftChainModel.stage, ChainState.started, hsteps, hg, hi]
  | @run _ _ x _ _ _ _ hx hsteps hpx hn hg hm =>
    have hpend : s.chain.status = .pending := by
      simpa [freshCalls, hx, hpx, eq_comm] using hfresh
    refine hp.entered hpend ?_ rfl rfl
    have hi := (hs.pending hpend).2.2
    have hgates : (s.started x.steps .running env).chain.gates[0]? = some false := by
      simp [QraftChainModel.gates, ChainState.started, hsteps, hg]
    rw [gates_createAndLink, StagePoint.door, hgates]
    simp [QraftChainModel.stage, ChainState.createAndLink, ChainState.started, hi]
  | @resumed _ _ x row _ _ hx hpx ht hm =>
    have hfailed : s.chain.status = .failed := by
      simpa [freshCalls, hx, hpx, eq_comm] using hfresh
    have hrow : row.status = .running := by rw [(WorkflowRow.transitionTo_ok ht).2]
    have hstage : s.chain.stage = .broken s.chain.currentStepIndex := by rw [QraftChainModel.stage, hfailed]
    exact hp.moved .redo ((gates_createAndLink _ _ _ _ _ _).trans (gates_bindStep_withRow _ _ _ _)) hstage
      (stage_running hrow) rfl rfl rfl
  | @approved _ _ row _ _ ht hm =>
    have hpark := approved_parked hs (by simpa [sparesSequence] using hord) ht hm.steps_ne_nil
    have hrow : row.status = .running := by rw [(WorkflowRow.transitionTo_ok ht).2]
    have hstage : s.chain.stage = .asking s.chain.currentStepIndex := by rw [QraftChainModel.stage, hpark]
    refine hp.moved .permit (gates_createAndLink _ _ _ _ _ _) hstage (stage_running hrow) rfl rfl ?_
    simp [ChainState.createAndLink, ChainState.unparked, hpark]
  | rejected ht =>
    obtain ⟨hmem, rfl⟩ := WorkflowRow.transitionTo_ok ht
    exact hp.moved .stop rfl rfl rfl (stopped (WorkflowStatus.cancelled_mem hmem)) rfl rfl
  | cancelled hrow =>
    obtain ⟨-, hlive, rfl⟩ := WorkflowRow.cancel_eq_some hrow
    exact hp.moved .stop rfl rfl rfl (stopped hlive) rfl rfl
  | @succeeded k _ r row hr hph hi hlast hrow =>
    obtain ⟨-, hlive, rfl⟩ := WorkflowRow.settleWorkflow_eq_some hrow
    have hrun := advancing_running hst hs (List.mem_of_getElem? hr) hph hi
      (fun h => hlive (.inl h)) (fun h => hlive (.inr (.inr h)))
    have hnone : s.chain.gates[s.chain.currentStepIndex + 1]? = none := by
      simp only [QraftChainModel.gates, List.getElem?_map, hi, hlast, Option.map_none]
    exact hp.moved .pass rfl (stage_running hrun) rfl
      (by simp [StagePoint.move, StagePoint.door, hnone]; rfl) rfl rfl
  | @parked _ _ r _ row hr hph hi hnext hg ht =>
    obtain ⟨hmem, rfl⟩ := WorkflowRow.transitionTo_ok ht
    have hrun := WorkflowStatus.waitingApproval_mem hmem
    have hgate := QraftChainModel.gates_getElem? hnext
    rw [hg] at hgate
    exact hp.moved .pass rfl (hi ▸ stage_running hrun) rfl
      (by simp [StagePoint.move, StagePoint.door, hgate]; rfl) rfl rfl
  | @advanced _ _ r _ metadata cluster hr hph hi hnext hg hc hm =>
    have hrun := advanced_running hst hs (List.mem_of_getElem? hr) hph hi hnext hc
    have hgate := QraftChainModel.gates_getElem? hnext
    rw [hg] at hgate
    have hstage : s.chain.stage = .working r.index := hi ▸ stage_running hrun
    have hgates := gates_createAndLink (s.advancedTo (r.index + 1) s.chain.toWorkflowRow env) (r.index + 1)
      .advance metadata cluster env
    exact hp.moved .pass hgates hstage (stage_running hrun)
      (by simp [StagePoint.move, StagePoint.door, hgate]; rfl) rfl rfl
  | @failed _ r row hr hph hrow =>
    obtain ⟨-, hlive, rfl⟩ := WorkflowRow.settleWorkflow_eq_some hrow
    obtain ⟨hrun, -⟩ := failing_current hst hs (List.mem_of_getElem? hr) hph hlive
    exact hp.moved .fail rfl (stage_running hrun) rfl rfl rfl rfl

theorem reach_program (h : (chainSystem defaults limit).ReachWhen (fun s e => s.sparesProgram e.1 = true) s) :
    s.Sequence ∧ s.Standing ∧ s.Played := by
  have hseq {s : ChainState}
      (h : (chainSystem defaults limit).ReachWhen (fun s e => s.sparesProgram e.1 = true) s) : s.Sequence := by
    apply reach_sequence (h.mono fun s e hok => ?_)
    simp only [sparesProgram, Bool.and_eq_true] at hok
    exact hok.1
  refine ⟨hseq h, ?_⟩
  apply h.invariant_of (fun s : ChainState => (lifecycleSystem limit).Reach s.life ∧ s.Sequence)
    fun s => s.Standing ∧ s.Played
  · exact fun s hs => ⟨reach_life hs, hseq hs⟩
  · rintro s ⟨chain, hst, -, -, -, rfl⟩
    have hpending {st : WorkflowStatus} {P : Prop} (hne : st ≠ .pending) (h : chain.status = st) : P :=
      absurd (h.symm.trans hst) hne
    refine ⟨⟨⟨fun r hr => absurd hr List.not_mem_nil, fun r hr => absurd hr List.not_mem_nil⟩, ?_, ?_, ?_⟩, ?_⟩
    · exact hpending (by decide)
    · exact hpending (by decide)
    · exact hpending (by decide)
    · refine ⟨[], ?_, rfl, rfl⟩
      rw [QraftChainModel.stage, hst]
      exact .start
  · rintro s ⟨e, env⟩ s' ⟨hl, hs⟩ ⟨hst, hp⟩ hok hstep
    obtain ⟨t, handles, he, rfl⟩ := step_effect hstep
    have ht := standing_effect he hl hs hst hok
    have hplayed := played_effect he hs hst hok hp
    exact ⟨ht.row rfl rfl rfl rfl (.inl rfl), hplayed.same rfl rfl rfl rfl⟩

theorem Came.status {index : Nat} {success : Bool} (h : s.Came index success) (hs : s.Sequence) :
    ∃ task t, s.chain.boundTask index = some task ∧ s.life.store.task? task = some t ∧
      t.status.verdict = some success := by
  obtain ⟨task, t, attempt, hb, ht, hdec⟩ := h
  exact ⟨task, t, hb, ht, hdec.verdict (firm_of_bound hs hb ht).2.coherent⟩

/-- A chain runs as the program of its stages: its row is where a play of the program leads that has one
redo for each `resume` and one permit for each approval. The tasks bound to the stages left behind have
succeeded, all of them once the chain has; the task of the stage at which it broke has failed; and while
it runs its current stage has a task. -/
theorem runs_as_program
    (h : (chainSystem defaults limit).ReachWhen (fun s e => s.sparesProgram e.1 = true) s) :
    (∃ moves, StagePoint.Plays s.chain.gates moves s.chain.stage ∧ moves.count .redo = s.resumes ∧
      moves.count .permit = s.approved.length) ∧
    (∀ i, i < s.chain.currentStepIndex ∨ s.chain.status = .succeeded ∧ i < s.chain.steps.length →
      ∃ task t, s.chain.boundTask i = some task ∧ s.life.store.task? task = some t ∧ t.status = .succeeded) ∧
    (s.chain.status = .failed → ∃ task t, s.chain.boundTask s.chain.currentStepIndex = some task ∧
      s.life.store.task? task = some t ∧ t.status.Dead) ∧
    (s.chain.status = .running → ∃ task, s.chain.boundTask s.chain.currentStepIndex = some task) := by
  obtain ⟨hs, hst, hplayed⟩ := reach_program h
  have succeeded {i : Nat} (hc : s.Came i true) : ∃ task t, s.chain.boundTask i = some task ∧
      s.life.store.task? task = some t ∧ t.status = .succeeded := by
    obtain ⟨task, t, hb, ht, hv⟩ := hc.status hs
    refine ⟨task, t, hb, ht, ?_⟩
    cases hstat : t.status <;> simp [hstat, TaskStatus.verdict] at hv ⊢
  refine ⟨hplayed, ?_, ?_, hst.running⟩
  · rintro i (hi | ⟨hsucc, hi⟩)
    · exact succeeded (hs.passed i hi)
    · obtain ⟨hlast, hcame⟩ := hst.done hsucc
      rcases Nat.lt_trichotomy i s.chain.currentStepIndex with hlt | rfl | hgt
      · exact succeeded (hs.passed i hlt)
      · exact succeeded hcame
      · have hlen := List.getElem?_eq_none_iff.mp hlast
        omega
  · intro hf
    obtain ⟨task, t, hb, ht, hv⟩ := (hst.broken hf).status hs
    refine ⟨task, t, hb, ht, ?_⟩
    cases hstat : t.status <;> simp [hstat, TaskStatus.verdict, TaskStatus.Dead] at hv ⊢

end

/-- A gated chain, approved, that fails at its second step and is resumed. -/
def resumedGated : List (ChainEvent × Env) := [
  clock 1 (.load [gatedStep, plainStep]),
  clock 1 (.run 0 none),
  clock 2 (.approve 0 none),
  clock 3 (.table (.saveResult { id := 2, success := true, stopped := 2 })),
  clock 3 (.table (.handleResult 0)),
  clock 4 (.route 0 0),
  clock 4 (.handle 0),
  clock 4 (.stepSuccess 0 none),
  clock 5 (.table (.saveResult { id := 6, success := false, stopped := 5 })),
  clock 5 (.table (.handleResult 1)),
  clock 6 (.route 1 1),
  clock 6 (.handle 1),
  clock 6 (.stepFailure 1),
  clock 7 (.refresh 0)]

theorem runs_as_program_resumed : ∃ s : ChainState,
    (chainSystem {} 1).ReachWhen (fun s e => s.sparesProgram e.1 = true) s ∧ s.resumes = 1 ∧
    ∃ moves, StagePoint.Plays s.chain.gates moves s.chain.stage ∧ moves.count .redo = 1 ∧
      moves.count .permit = 1 := by
  obtain ⟨s, hr, hp⟩ := StepSystem.exists_reach_of_run
    ((chainSystem {} 1).guard fun s e => s.sparesProgram e.1 = true)
    (resumedGated ++ [clock 8 (.resume 0 none)]) (.init (created_init {} 1))
    (fun s => s.resumes = 1 ∧ s.approved.length = 1) (by decide)
  obtain ⟨hres, happ⟩ := of_decide_eq_true hp
  have hreach := StepSystem.reachWhen_of_guard hr
  obtain ⟨moves, hplays, hredo, hpermit⟩ := (runs_as_program hreach).1
  exact ⟨s, hreach, hres, moves, hplays, hredo.trans hres, hpermit.trans happ⟩

end ChainState
end Qraft
