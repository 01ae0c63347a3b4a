import Qraft.Lifecycle.Unrouted
import Qraft.Workflows.ChainHooks
import Qraft.Workflows.Marker

/-! What a replay of unrouted attempts finds of a chain: while it runs, the task of its current
step is not through routing, and once it has settled its hook is dispatched or about to be. -/
namespace Qraft

/-- A process is done with its attempt, short of flagging it. -/
def ChainPhase.done : ChainPhase → Bool
  | .announcing _ _ _ | .returned => true
  | _ => false

namespace ChainState
open Lifecycle

/-- The attempts of a task that processes are done with. -/
def Done (s : ChainState) (task : TaskId) (attempt : AttemptId) : Prop :=
  ∃ r ∈ s.routings, r.task = task ∧ r.attempt = attempt ∧ r.phase.done = true

/-- What is known of the tasks queued and the completions in flight. -/
structure Tracked (s : ChainState) : Prop where
  blank : s.chain.steps = [] → s.chain.currentStepIndex = 0
  tasks : ∀ q ∈ s.queued, ∃ t, s.life.store.task? q.task = some t ∧ Unpublished s.life t
  member : ∀ r ∈ s.routings, ∃ q ∈ s.queued, q.index = r.index ∧ q.task = r.task
  read : ∀ r ∈ s.routings, ∃ t, s.life.store.task? r.task = some t ∧ ReadAs t r.attempt r.success

/-- While the chain runs, the task of its current step is not through routing. -/
def Owed (s : ChainState) : Prop :=
  s.chain.status = .running → ∃ task, s.chain.boundTask s.chain.currentStepIndex = some task ∧
    Owing s.life (s.Done task) task

section
variable {defaults : RetryDefaults} {limit : Nat} {s t : ChainState} {env : Env} {e : ChainEvent}

namespace Tracked

/-- The table takes a step in which no member publishes. -/
theorem life (h : s.Tracked) (hd : s.life.store.Distinct) {e : LifecycleEvent} {life : Lifecycle}
    (hstep : s.life.step limit env e = some life)
    (hpub : ∀ q ∈ s.queued, ∀ attempt, e ≠ .commitOutput q.task attempt) :
    ({ s with life } : ChainState).Tracked := by
  refine ⟨h.blank, ?_, h.member, ?_⟩
  · intro q hq
    obtain ⟨t, ht, hu⟩ := h.tasks q hq
    obtain ⟨t', ht', hu', -⟩ := hu.next hd hstep ht (hpub q hq)
    exact ⟨t', ht', hu'⟩
  · intro r hr
    obtain ⟨q, hq, -, hqt⟩ := h.member r hr
    obtain ⟨t, ht, hread⟩ := h.read r hr
    obtain ⟨u, hu, hun⟩ := h.tasks q hq
    rw [hqt] at hu
    obtain rfl := Option.some.inj (ht.symm.trans hu)
    obtain ⟨t', ht', -, hkeep⟩ := hun.next hd hstep ht (hqt ▸ hpub q hq)
    exact ⟨t', ht', hkeep _ _ hread⟩

theorem setRouting (h : s.Tracked) {k : Nat} {r : ChainRouting} (hr : s.routings[k]? = some r)
    (phase : ChainPhase) : (s.setRouting k { r with phase }).Tracked := by
  refine ⟨h.blank, h.tasks, ?_, ?_⟩
  · intro x hx
    rcases List.mem_or_eq_of_mem_set hx with hx | rfl
    · exact h.member x hx
    · exact h.member r (List.mem_of_getElem? hr)
  · intro x hx
    rcases List.mem_or_eq_of_mem_set hx with hx | rfl
    · exact h.read x hx
    · exact h.read r (List.mem_of_getElem? hr)

theorem endRouting (h : s.Tracked) (k : Nat) : (s.endRouting k).Tracked :=
  ⟨h.blank, h.tasks, fun r hr => h.member r (List.mem_of_mem_eraseIdx hr),
    fun r hr => h.read r (List.mem_of_mem_eraseIdx hr)⟩

/-- A row with the same tasks. -/
theorem row (h : s.Tracked) (hl : t.life = s.life) (hq : t.queued = s.queued)
    (hr : t.routings = s.routings) (hs : t.chain.steps = [] → t.chain.currentStepIndex = 0) :
    t.Tracked := by
  refine ⟨hs, ?_, ?_, ?_⟩
  · rw [hq, hl]
    exact h.tasks
  · rw [hq, hr]
    exact h.member
  · rw [hr, hl]
    exact h.read

theorem createAndLink (h : s.Tracked) (hl : (lifecycleSystem limit).Reach s.life) {index : Nat}
    {origin : StepOrigin} {metadata : QraftTask} {cluster : Option String} (hs : s.chain.steps ≠ []) :
    (s.createAndLink index origin metadata cluster env).Tracked := by
  have hd := reach_distinct hl
  have h' := h.life hd (step_asyncTask limit s.life metadata cluster env) nofun
  refine ⟨?_, ?_, ?_, h'.read⟩
  · intro hnil
    simp [ChainState.createAndLink, QraftChainModel.bindStep, hs] at hnil
  · intro q hq
    rcases List.mem_append.mp hq with hq | hq
    · exact h'.tasks q hq
    · rw [List.mem_singleton.mp hq]
      exact unpublished_created (reach_known hl) hd metadata cluster env
  · intro r hr
    obtain ⟨q, hq, hrest⟩ := h'.member r hr
    exact ⟨q, List.mem_append_left _ hq, hrest⟩

end Tracked

private theorem tracked_effect (h : ChainEffect defaults limit s env e t)
    (hl : (lifecycleSystem limit).Reach s.life) (hs : s.Tracked) : t.Tracked := by
  have hd := reach_distinct hl
  have nonempty {c : QraftChainModel} {i j : Nat} {st : QraftChainStep} (hst : c.steps[i]? = some st)
      (hnil : c.steps = []) : j = 0 := by
    rw [hnil] at hst
    cases hst
  cases h with
  | quiet => exact hs
  | @table e life hf h =>
    apply hs.life hd h
    rintro q hq attempt rfl
    have hm : s.isMember q.task = true := List.any_eq_true.mpr ⟨q, hq, decide_eq_true rfl⟩
    simp [foreign, hm] at hf
  | @routed i index held attempt a success hdue ha hsome hq =>
    refine ⟨hs.blank, hs.tasks, ?_, ?_⟩
    · intro r hr
      rcases List.mem_append.mp hr with hr | hr
      · exact hs.member r hr
      · rw [List.mem_singleton.mp hr]
        exact hq
    · intro r hr
      rcases List.mem_append.mp hr with hr | hr
      · exact hs.read r hr
      · rw [List.mem_singleton.mp hr]
        obtain ⟨q, hq, -, hqt⟩ := hq
        obtain ⟨u, hu, hun⟩ := hs.tasks q hq
        rw [hqt] at hu
        obtain ⟨ham, haid⟩ := Rows.get?_eq_some ha
        obtain ⟨hany, hfail⟩ := hun.due _ (List.mem_of_getElem? hdue) (TaskStore.task?_eq_some hu).2.symm
        refine ⟨u, hu, ?_⟩
        cases success with
        | true => exact hany
        | false => exact hfail a ham haid hsome
  | handled hr | skipped hr | spared hr => exact hs.setRouting hr _
  | announced hr =>
    have hset := hs.setRouting hr .returned
    exact hset.row rfl rfl rfl hs.blank
  | @finished k i r held life hr hp hdue ht h => exact (hs.endRouting k).life hd h nofun
  | crashed | raised => exact hs.endRouting _
  | @runGated _ _ x _ _ hx hsteps hp hn hg =>
    refine hs.row rfl rfl rfl fun hnil => ?_
    rw [started, hsteps] at hnil
    cases hnil
  | @run _ _ x _ _ _ _ hx hsteps hp hn hg hm =>
    have hstart : (s.started x.steps .running env).Tracked := by
      refine hs.row rfl rfl rfl fun hnil => ?_
      rw [started, hsteps] at hnil
      cases hnil
    exact hstart.createAndLink hl hm.steps_ne_nil
  | @resumed _ _ _ row _ _ hx hp ht hm =>
    have hre : (s.reopened row env).Tracked :=
      hs.row rfl rfl rfl fun hnil => absurd hnil hm.steps_ne_nil
    exact hre.createAndLink hl hm.steps_ne_nil
  | @approved _ _ row _ _ ht hm =>
    have hrow : (s.unparked row env).Tracked := hs.row rfl rfl rfl hs.blank
    exact hrow.createAndLink hl hm.steps_ne_nil
  | rejected | cancelled => exact hs.row rfl rfl rfl hs.blank
  | @succeeded _ _ _ row hr =>
    have hset := hs.setRouting hr (.announcing (s.chain.withRow row) .success s.settlements.length)
    exact hset.row rfl rfl rfl hs.blank
  | @failed _ _ row hr =>
    have hset := hs.setRouting hr (.announcing (s.chain.withRow row) .failure s.settlements.length)
    exact hset.row rfl rfl rfl hs.blank
  | @parked _ _ r _ row hr hp hi hnext hg ht =>
    have hadv : (s.advancedTo (r.index + 1) row env).Tracked := hs.row rfl rfl rfl (nonempty hnext)
    exact hadv.setRouting hr _
  | @advanced _ _ r _ metadata cluster hr hp hi hnext hg hc hm =>
    have hadv : (s.advancedTo (r.index + 1) s.chain.toWorkflowRow env).Tracked :=
      hs.row rfl rfl rfl (nonempty hnext)
    have hqueued : ((s.advancedTo (r.index + 1) s.chain.toWorkflowRow env).createAndLink (r.index + 1)
        .advance metadata cluster env).Tracked := hadv.createAndLink hl hm.steps_ne_nil
    exact hqueued.setRouting hr _

theorem reach_tracked (h : (chainSystem defaults limit).Reach s) : s.Tracked := by
  apply StepSystem.ReachWhen.invariant_of (fun s : ChainState => (lifecycleSystem limit).Reach s.life)
    Tracked (fun _ => reach_life) _ _ h
  · rintro s ⟨chain, -, -, hi, -, rfl⟩
    exact ⟨fun _ => hi, fun q hq => absurd hq List.not_mem_nil, fun r hr => absurd hr List.not_mem_nil,
      fun r hr => absurd hr List.not_mem_nil⟩
  · rintro s ⟨e, env⟩ s' hl ih - hstep
    obtain ⟨t, handles, he, rfl⟩ := step_effect hstep
    have ht := tracked_effect he hl ih
    exact ht.row rfl rfl rfl ht.blank

namespace Owed

theorem endRouting (h : s.Owed) (k : Nat) : (s.endRouting k).Owed := by
  intro hrun
  obtain ⟨task, hb, ho⟩ := h hrun
  refine ⟨task, hb, ho.mono ?_⟩
  rintro a ⟨r, hr, hrest⟩
  exact ⟨r, List.mem_of_mem_eraseIdx hr, hrest⟩

/-- A process may be done with an attempt that is not the one still to be routed. -/
theorem setRouting (h : s.Owed) {k : Nat} {r : ChainRouting} (hr : s.routings[k]? = some r)
    (phase : ChainPhase) (hdone : phase.done = true → s.chain.status = .running → r.phase.done = true ∨
      ∀ t a, s.chain.boundTask s.chain.currentStepIndex = some r.task → s.life.store.task? r.task = some t →
        Unrouted t a → a.id ≠ r.attempt) :
    (s.setRouting k { r with phase }).Owed := by
  intro hrun
  obtain ⟨task, hb, t, a, ht, ha, hnot⟩ := h hrun
  refine ⟨task, hb, t, a, ht, ha, ?_⟩
  rintro ⟨x, hx, hxt, hxa, hp⟩
  rcases List.mem_or_eq_of_mem_set hx with hx | rfl
  · exact hnot ⟨x, hx, hxt, hxa, hp⟩
  · have hxt : r.task = task := hxt
    subst hxt
    rcases hdone hp hrun with hold | hother
    · exact hnot ⟨r, List.mem_of_getElem? hr, rfl, hxa, hold⟩
    · exact hother t a hb ht ha hxa.symm

/-- The table takes a step that flags no attempt unless a process is done with it. -/
theorem life (h : s.Owed) (hd : s.life.store.Distinct) (hb : s.Bindings) (ht : s.Tracked)
    {e : LifecycleEvent} {life : Lifecycle} (hstep : s.life.step limit env e = some life)
    (hpub : ∀ q ∈ s.queued, ∀ attempt, e ≠ .commitOutput q.task attempt)
    (hroute : ∀ q ∈ s.queued, ∀ j held attempt, e = .route j → s.life.due[j]? = some (held, attempt) →
      held.id = q.task → s.Done q.task attempt) : ({ s with life } : ChainState).Owed := by
  intro hrun
  obtain ⟨task, hbound, ho⟩ := h hrun
  obtain ⟨q, hq, -, rfl, -⟩ := hb.bound _ _ hbound
  refine ⟨q.task, hbound, ho.next ?_ hd hstep (hpub q hq) ?_ (hroute q hq)⟩
  · intro t hfind
    obtain ⟨u, hu, hun⟩ := ht.tasks q hq
    exact Option.some.inj (hu.symm.trans hfind) ▸ hun
  · rintro a ⟨r, hr, hrt, rfl, -⟩
    obtain ⟨t, hfind, b, hb, hid, hdec, -⟩ := ht.read r hr
    exact ⟨t, hrt ▸ hfind, b, hb, hid, hdec, nofun⟩

/-- A task just created for the current step is not through routing. -/
theorem createAndLink (hd : s.life.store.Distinct) (hr : ∀ r ∈ s.routings, r.task < s.life.store.nextId)
    {index : Nat} {origin : StepOrigin} {metadata : QraftTask} {cluster : Option String}
    (hi : s.chain.currentStepIndex = index) (hm : s.Member defaults index metadata cluster) :
    (s.createAndLink index origin metadata cluster env).Owed := by
  intro _
  obtain ⟨st, hst, -⟩ := hm
  refine ⟨s.life.store.nextId, ?_, ?_⟩
  · have hb : (s.chain.bindStep index (some s.life.store.nextId)).boundTask s.chain.currentStepIndex =
        some s.life.store.nextId := by
      rw [QraftChainModel.boundTask_bindStep, if_pos hi.symm, hi, hst]
      rfl
    exact hb
  · apply owing_created hd
    rintro a ⟨r, hrm, hrt, -⟩
    exact absurd hrt (Nat.ne_of_lt (hr r hrm))

end Owed

private theorem owed_effect (h : ChainEffect defaults limit s env e t)
    (hl : (lifecycleSystem limit).Reach s.life) (hb : s.Bindings) (htr : s.Tracked) (hm : s.chain.Marked)
    (hs : s.Owed) : t.Owed := by
  have hd := reach_distinct hl
  have hfresh : ∀ r ∈ s.routings, r.task < s.life.store.nextId := by
    intro r hr
    obtain ⟨q, hq, -, hqt⟩ := htr.member r hr
    exact hqt ▸ hb.fresh q hq
  -- A task is queued for one step only.
  have index_eq {task : TaskId} (hbound : s.chain.boundTask s.chain.currentStepIndex = some task)
      {q : QueuedStep} (hq : q ∈ s.queued) (hqt : q.task = task) : q.index = s.chain.currentStepIndex := by
    obtain ⟨q', hq', hqi, hqt', -⟩ := hb.bound _ _ hbound
    rw [hb.eq_of_task hq hq' (hqt.trans hqt'.symm)]
    exact hqi
  have hopen (hrun : s.chain.status = .running) (status : WorkflowStatus) :
      s.chain.settleWorkflow status env.now ≠ none := by
    have hterm : ¬ s.chain.status.Terminal := by
      rw [hrun]
      decide
    exact Option.isSome_iff_ne_none.mp (hm.open hterm status env.now).1
  cases h with
  | quiet => exact hs
  | @table e life hf h =>
    have member {q : QueuedStep} (hq : q ∈ s.queued) : s.isMember q.task = true :=
      List.any_eq_true.mpr ⟨q, hq, decide_eq_true rfl⟩
    apply hs.life hd hb htr h
    · rintro q hq attempt rfl
      simp [foreign, member hq] at hf
    · rintro q hq j held attempt rfl hdue hid
      simp [foreign, hdue, hid, member hq] at hf
  | @routed i index held attempt a success hdue ha hsome hq =>
    intro hrun
    obtain ⟨task, hbound, u, b, hu, hun, hnot⟩ := hs hrun
    refine ⟨task, hbound, u, b, hu, hun, ?_⟩
    rintro ⟨r, hr, hrt, hra, hp⟩
    rcases List.mem_append.mp hr with hr | hr
    · exact hnot ⟨r, hr, hrt, hra, hp⟩
    · rw [List.mem_singleton.mp hr] at hrt hp
      obtain ⟨q, hqm, hqi, hqt⟩ := hq
      have hrt : held.id = task := hrt
      have hbind : s.chain.boundTask index = some held.id := by
        rw [← hqi, index_eq hbound hqm (hqt.trans hrt), hrt]
        exact hbound
      rw [if_pos hbind] at hp
      cases hp
  | @handled k r hr hp =>
    apply hs.setRouting hr
    intro hdone hrun
    refine .inr fun u a hbound hu hun he => ?_
    obtain ⟨v, hv, hread⟩ := htr.read r (List.mem_of_getElem? hr)
    obtain rfl := Option.some.inj (hu.symm.trans hv)
    unfold handlePhase at hdone
    rw [hrun, if_neg nofun] at hdone
    split at hdone
    · cases hdone
    · rename_i hfail
      rw [Bool.not_eq_true] at hfail
      rw [hfail, ← he] at hread
      have hdead := hun.dead (hd.attempts u (TaskStore.task?_eq_some hu).1) hread
      rw [hu, Option.any_some, decide_eq_true hdead, if_pos rfl] at hdone
      cases hdone
  | announced hr hp =>
    have hset := hs.setRouting hr .returned fun _ _ => .inl (by rw [hp]; rfl)
    exact hset
  | @finished k i r held life hr hp hdue ht h =>
    have hlife : ({ s with life } : ChainState).Owed := by
      apply hs.life hd hb htr h nofun
      intro q hq j held' attempt he hj hid
      obtain rfl := LifecycleEvent.route.inj he
      obtain ⟨rfl, rfl⟩ := Prod.mk.inj (Option.some.inj (hdue.symm.trans hj))
      exact ⟨r, List.mem_of_getElem? hr, ht.symm.trans hid, rfl, by rw [hp]; rfl⟩
    exact hlife.endRouting k
  | crashed | raised => exact hs.endRouting _
  | runGated => exact fun h => by cases h
  | @run _ _ x _ _ _ _ hx hsteps hp hn hg hmem =>
    exact Owed.createAndLink (s := s.started x.steps .running env) hd hfresh (htr.blank hn) hmem
  | @resumed _ _ _ row _ _ hx hp ht hmem =>
    exact Owed.createAndLink (s := s.reopened row env) hd hfresh rfl hmem
  | @approved _ _ row _ _ ht hmem => exact Owed.createAndLink (s := s.unparked row env) hd hfresh rfl hmem
  | rejected ht =>
    obtain ⟨-, rfl⟩ := WorkflowRow.transitionTo_ok ht
    exact fun h => by cases h
  | cancelled hrow =>
    obtain ⟨-, -, rfl⟩ := WorkflowRow.cancel_eq_some hrow
    exact fun h => by cases h
  | @skipped k raises r hr hp hskip =>
    apply hs.setRouting hr
    intro _ hrun
    refine .inr fun u a hbound hu hun he => ?_
    obtain ⟨q, hq, hqi, hqt⟩ := htr.member r (List.mem_of_getElem? hr)
    rcases hskip with hc | hi | ⟨-, hnone⟩
    · cases hc.symm.trans hrun
    · exact hi ((index_eq hbound hq hqt).symm.trans hqi)
    · exact hopen hrun .succeeded hnone
  | spared hr hp hskip =>
    apply hs.setRouting hr
    intro _ hrun
    rcases hskip with hc | hnone
    · cases hc.symm.trans hrun
    · exact absurd hnone (hopen hrun .failed)
  | succeeded hr hp hi hlast hrow =>
    obtain ⟨-, -, rfl⟩ := WorkflowRow.settleWorkflow_eq_some hrow
    exact fun h => by cases h
  | failed hr hp hrow =>
    obtain ⟨-, -, rfl⟩ := WorkflowRow.settleWorkflow_eq_some hrow
    exact fun h => by cases h
  | parked hr hp hi hnext hg ht =>
    obtain ⟨-, rfl⟩ := WorkflowRow.transitionTo_ok ht
    exact fun h => by cases h
  | @advanced k _ r _ metadata cluster hr hp hi hnext hg hc hmem =>
    have hset : ∀ x ∈ s.routings.set k { r with phase := .returned }, x.task < s.life.store.nextId := by
      intro x hx
      rcases List.mem_or_eq_of_mem_set hx with hx | rfl
      · exact hfresh x hx
      · exact hfresh r (List.mem_of_getElem? hr)
    have hadv : ((((s.advancedTo (r.index + 1) s.chain.toWorkflowRow env).setRouting k
        { r with phase := .returned }).createAndLink (r.index + 1) .advance metadata cluster env).Owed) :=
      Owed.createAndLink (s := (s.advancedTo (r.index + 1) s.chain.toWorkflowRow env).setRouting k
        { r with phase := .returned }) hd hset rfl hmem
    exact hadv

theorem reach_owed
    (h : (chainSystem defaults limit).ReachWhen (fun s e => s.sparesMarker e.1 = true) s) : s.Owed := by
  apply StepSystem.ReachWhen.invariant_of
    (fun s : ChainState => (lifecycleSystem limit).Reach s.life ∧ s.Bindings ∧ s.Tracked ∧ s.chain.Marked)
    Owed _ _ _ h
  · exact fun s hs => ⟨reach_life hs, reach_bindings hs.reach, reach_tracked hs.reach, reach_marked hs⟩
  · rintro s ⟨chain, hst, -, -, -, rfl⟩ hrun
    cases hst.symm.trans hrun
  · rintro s ⟨e, env⟩ s' ⟨hl, hb, htr, hm⟩ ih - hstep
    obtain ⟨t, handles, he, rfl⟩ := step_effect hstep
    have ht := owed_effect he hl hb htr hm ih
    exact ht

/-- What the settlements and the dispatch rows say of a chain that has ended. -/
structure Posted (s : ChainState) : Prop where
  last : s.chain.status.Terminal → s.settlements.getLast? = some s.chain.status
  rows : s.chain.status.Terminal → ∀ m ∈ s.hookTable.hooks, m.settlement + 1 = s.settlements.length →
    ∃ d ∈ s.hookTable.dispatches, d.hookType = m.hookType
  unique : (s.hookTable.dispatches.map fun d => d.hookType).Nodup

namespace Posted

/-- A step that dispatches nothing and keeps the status. -/
theorem calm (h : s.Posted) (hh : t.hookTable = s.hookTable) (hn : t.settlements = s.settlements)
    (hst : t.chain.status = s.chain.status) : t.Posted := by
  refine ⟨?_, ?_, ?_⟩
  · rw [hst, hn]
    exact h.last
  · rw [hst, hh, hn]
    exact h.rows
  · rw [hh]
    exact h.unique

/-- The chain runs on, or waits. -/
theorem goes_on (h : s.Posted) (hterm : ¬ t.chain.status.Terminal)
    (hd : t.hookTable.dispatches = s.hookTable.dispatches ∨ t.hookTable.dispatches = []) : t.Posted := by
  refine ⟨fun h => absurd h hterm, fun h => absurd h hterm, ?_⟩
  rcases hd with hd | hd
  · rw [hd]
    exact h.unique
  · rw [hd]
    exact List.nodup_nil

/-- A settlement is written. -/
theorem settled (h : s.Posted) (hh : s.Heralded) (ht : t.hookTable = s.hookTable)
    (hn : t.settlements = s.settlements ++ [t.chain.status]) : t.Posted := by
  refine ⟨?_, ?_, ?_⟩
  · rw [hn, List.getLast?_concat]
    exact fun _ => rfl
  · rw [ht, hn, List.length_append, List.length_singleton]
    intro _ m hm he
    obtain ⟨o, ho, -⟩ := hh.hooks m hm
    have hlt := (List.getElem?_eq_some_iff.mp ho).1
    omega
  · rw [ht]
    exact h.unique

/-- A hook is dispatched. -/
theorem dispatched (h : s.Posted) (row : QraftChainModel) (ty : HookType) (n : Nat) (raises : Bool) :
    (s.dispatchWorkflowHook row ty n raises).Posted := by
  obtain ⟨hunique, hkeep, hrows⟩ := s.hookTable.dispatchOnce_rows ty (row.hookOf ty) row.workflowHookContext n
    raises h.unique
  refine ⟨h.last, ?_, hunique⟩
  intro hterm m hm he
  rcases hrows m hm with hm | hrow
  · obtain ⟨d, hd, hty⟩ := h.rows hterm m hm he
    exact ⟨d, hkeep d hd, hty⟩
  · exact hrow

end Posted

private theorem posted_effect (h : ChainEffect defaults limit s env e t) (hh : s.Heralded) (hs : s.Posted) :
    t.Posted := by
  have hrunning : ¬ WorkflowStatus.running.Terminal := by decide
  have hwaiting : ¬ WorkflowStatus.waitingApproval.Terminal := by decide
  have announced (row : WorkflowRow) (raises : Bool) : (s.announceCancelled row raises).Posted := by
    have hset : (s.settled row).Posted := hs.settled hh rfl rfl
    exact hset.dispatched _ _ _ _
  cases h with
  | quiet => exact hs
  | table | routed | handled | finished | crashed | raised | skipped | spared | advanced =>
    exact hs.calm rfl rfl rfl
  | @announced k r row ty n raises hr hp =>
    have hsent := hs.dispatched row ty n raises
    exact hsent.calm rfl rfl rfl
  | runGated => exact hs.goes_on hwaiting (.inl rfl)
  | run => exact hs.goes_on hrunning (.inl rfl)
  | resumed hx hp ht hm =>
    obtain ⟨-, rfl⟩ := WorkflowRow.transitionTo_ok ht
    exact hs.goes_on hrunning (.inr rfl)
  | approved ht hm =>
    obtain ⟨-, rfl⟩ := WorkflowRow.transitionTo_ok ht
    exact hs.goes_on hrunning (.inl rfl)
  | parked hr hp hi hnext hg ht =>
    obtain ⟨-, rfl⟩ := WorkflowRow.transitionTo_ok ht
    exact hs.goes_on hwaiting (.inl rfl)
  | rejected | cancelled => exact announced _ _
  | succeeded | failed => exact hs.settled hh rfl rfl

theorem reach_posted (h : (chainSystem defaults limit).Reach s) : s.Posted := by
  apply StepSystem.ReachWhen.invariant_of Heralded Posted (fun _ => reach_heralded) _ _ h
  · rintro s ⟨chain, hst, -, -, -, rfl⟩
    have hopen : ¬ chain.status.Terminal := by
      rw [hst]
      decide
    exact ⟨fun h => absurd h hopen, fun h => absurd h hopen, List.nodup_nil⟩
  · rintro s e s' hh hs - hstep
    obtain ⟨u, _, hu, rfl⟩ := step_effect hstep
    have hs' := posted_effect hu hh hs
    exact hs'.calm rfl rfl rfl

/-- A settlement by a completion is announced once, or is still to be. -/
theorem reach_announced
    (h : (chainSystem defaults limit).ReachWhen (fun s e => s.sparesDispatch e.1 = true) s) :
    ∀ n o, s.settlements[n]? = some o → o ≠ .cancelled → s.chain.hookOf o.hookType ≠ none →
      s.announcements n = 1 := by
  apply h.invariant_of Heralded (fun s => ∀ n o, s.settlements[n]? = some o → o ≠ .cancelled →
    s.chain.hookOf o.hookType ≠ none → s.announcements n = 1) fun _ h => reach_heralded h.reach
  · rintro s ⟨chain, -, -, -, -, rfl⟩ n o ho
    cases ho
  · intro s e s' hh hs hok hstep n o ho hne hconf
    obtain ⟨u, _, hu, rfl⟩ := step_effect hstep
    obtain ⟨hc, hu⟩ := effect_heralds hu
    have hconf : s.chain.hookOf o.hookType ≠ none := hc o.hookType ▸ hconf
    exact hu.announcements hh ho hok (fun he => absurd he hne) hconf fun hold => hs n o hold hne hconf

/-- Once every attempt of a chain's tasks is flagged, the chain does not run any more, and if it has
settled and no process has that settlement's hook to dispatch, it was dispatched once and has the one row
of its type. -/
theorem replay_settles
    (h : (chainSystem defaults limit).ReachWhen
      (fun s e => s.sparesMarker e.1 = true ∧ s.sparesDispatch e.1 = true) s)
    (hr : ∀ q ∈ s.queued, s.life.replayed q.task = true)
    (ho : ∀ x ∈ s.outstanding, x.2.2 + 1 ≠ s.settlements.length) :
    s.chain.status ≠ .running ∧
    (s.chain.status = .succeeded ∨ s.chain.status = .failed →
      s.chain.hookOf s.chain.status.hookType ≠ none →
      (s.sent (s.settlements.length - 1)).length = 1 ∧
      (s.hookTable.dispatches.map fun d => d.hookType).count s.chain.status.hookType = 1) := by
  refine ⟨?_, fun hst hconf => ?_⟩
  · intro hrun
    obtain ⟨task, hb, howing⟩ := reach_owed (h.mono fun _ _ hok => hok.1) hrun
    obtain ⟨q, hq, -, rfl, -⟩ := (reach_bindings h.reach).bound _ _ hb
    cases (hr q hq).symm.trans howing.not_replayed
  · have hp := reach_posted h.reach
    have hterm : s.chain.status.Terminal := hst.elim .inl fun h => .inr (.inl h)
    have hne : s.chain.status ≠ .cancelled := by
      rcases hst with hst | hst
      · rw [hst]
        decide
      · rw [hst]
        decide
    have hlast := hp.last hterm
    rw [List.getLast?_eq_getElem?] at hlast
    have hlen := (List.getElem?_eq_some_iff.mp hlast).1
    have hone := reach_announced (h.mono fun _ _ hok => hok.2) _ _ hlast hne hconf
    have hnone : (s.outstanding.countP fun x => x.2.2 = s.settlements.length - 1) = 0 := by
      apply List.countP_eq_zero.mpr
      intro x hx he
      have hat := of_decide_eq_true he
      exact ho x hx (by omega)
    rw [announcements, hnone, Nat.add_zero] at hone
    refine ⟨hone, List.count_eq_one_of_mem hp.unique ?_⟩
    obtain ⟨m, hm⟩ := List.length_eq_one_iff.mp hone
    have hin : m ∈ s.sent (s.settlements.length - 1) := by
      rw [hm]
      exact List.mem_singleton.mpr rfl
    obtain ⟨hmem, hset⟩ := List.mem_filter.mp hin
    have hset : m.settlement = s.settlements.length - 1 := of_decide_eq_true hset
    obtain ⟨d, hd, hty⟩ := hp.rows hterm m hmem (by omega)
    obtain ⟨o, ho', htype, -⟩ := (reach_heralded h.reach).hooks m hmem
    rw [hset, hlast] at ho'
    rw [← Option.some.inj ho'] at htype
    exact List.mem_map.mpr ⟨d, hd, hty.trans htype⟩

end

end ChainState
end Qraft
