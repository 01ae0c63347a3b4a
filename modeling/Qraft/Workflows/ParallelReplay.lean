import Mathlib.Data.List.Perm.Subperm
import Qraft.Workflows.ChainReplay

/-! What a replay of unrouted attempts finds of an iter or batch: each member is counted or not
through routing, and a settled workflow's hook is dispatched or about to be. -/
namespace Qraft

/-- A process is done with its attempt, short of flagging it. -/
def ParallelPhase.done : ParallelPhase → Bool
  | .announcing _ _ | .returned => true
  | _ => false

/-- The settlement a process has still to announce. -/
def ParallelPhase.announcement : ParallelPhase → Option QraftParallelModel
  | .announcing m _ => some m
  | _ => none

theorem QraftParallelModel.outcome_hookType (m : QraftParallelModel) : m.outcome.hookType = m.hookType := by
  unfold outcome hookType
  split
  · rfl
  · rfl

namespace ParallelState
open Lifecycle

/-- The attempts of a member that processes are done with. -/
def Done (s : ParallelState) (task : TaskId) (attempt : AttemptId) : Prop :=
  ∃ r ∈ s.routings, r.task = task ∧ r.attempt = attempt ∧ r.phase.done = true

/-- What processes have still to announce. -/
def outstanding (s : ParallelState) : List QraftParallelModel :=
  s.routings.filterMap fun r => r.phase.announcement

/-- No process that has a hook to dispatch dies, and its enqueue does not raise. -/
def sparesDispatch (s : ParallelState) : ParallelEvent → Bool
  | .announce k raises => s.routings[k]?.all fun r => r.phase.announcement.all fun m =>
      (m.hookOf m.hookType).isNone || !raises
  | .crash k => s.routings[k]?.all fun r => r.phase.announcement.all fun m => (m.hookOf m.hookType).isNone
  | _ => true

/-- What is known of the members and the completions in flight; until the workflow is cancelled,
a member that was not counted is not through routing. -/
structure Tracked (s : ParallelState) : Prop where
  nodup : s.members.Nodup
  fresh : ∀ m ∈ s.members, m < s.life.store.nextId
  tasks : ∀ m ∈ s.members, ∃ t, s.life.store.task? m = some t ∧ Unpublished s.life t
  member : ∀ r ∈ s.routings, r.task ∈ s.members
  read : ∀ r ∈ s.routings, ∃ t, s.life.store.task? r.task = some t ∧ ReadAs t r.attempt r.success
  owed : s.model.status ≠ .cancelled → ∀ m ∈ s.members,
    (∃ a, (m, a) ∈ s.counted) ∨ Owing s.life (s.Done m) m

/-- While the workflow runs, the count is not full or a member is not counted. -/
structure Paced (s : ParallelState) : Prop where
  total : s.model.totalCount ≤ s.members.length
  pending : s.model.status = .pending → s.members = []
  ungated : s.model.status ≠ .waitingApproval
  running : s.model.status = .running → s.model.completedCount < s.model.totalCount ∨
    ∃ m ∈ s.members, ∀ p ∈ s.counted, p.1 ≠ m

/-- Whether the hook of a settled workflow is dispatched. -/
structure Posted (s : ParallelState) : Prop where
  single : s.outstanding.length ≤ 1
  unsettled : ¬ s.model.status.Terminal → s.outstanding = [] ∧ s.hookTable.dispatches = []
  awaiting : s.model.status = .succeeded ∨ s.model.status = .failed → ∀ m ∈ s.outstanding,
    m.hookType = s.model.status.hookType ∧ (∀ ty, m.hookOf ty = s.model.hookOf ty) ∧
      s.hookTable.dispatches = []
  posted : s.model.status = .succeeded ∨ s.model.status = .failed → s.outstanding = [] →
    s.model.hookOf s.model.status.hookType ≠ none →
    (s.hookTable.dispatches.map fun d => d.hookType) = [s.model.status.hookType]

section
variable {defaults : RetryDefaults} {limit : Nat} {s t : ParallelState} {env : Env} {e : ParallelEvent}

namespace Tracked

/-- The table takes a step in which no member publishes, and none is flagged unless a process is
done with it. -/
theorem life (h : s.Tracked) (hd : s.life.store.Distinct) {e : LifecycleEvent} {life : Lifecycle}
    (hstep : s.life.step limit env e = some life)
    (hpub : ∀ m ∈ s.members, ∀ attempt, e ≠ .commitOutput m attempt)
    (hroute : ∀ m ∈ s.members, ∀ j held attempt, e = .route j → s.life.due[j]? = some (held, attempt) →
      held.id = m → s.Done m attempt) : { s with life }.Tracked := by
  refine ⟨h.nodup, ?_, ?_, h.member, ?_, ?_⟩
  · exact fun m hm => Nat.lt_of_lt_of_le (h.fresh m hm) (step_nextId hstep)
  · intro m hm
    obtain ⟨t, ht, hu⟩ := h.tasks m hm
    obtain ⟨t', ht', hu', -⟩ := hu.next hd hstep ht (hpub m hm)
    exact ⟨t', ht', hu'⟩
  · intro r hr
    obtain ⟨t, ht, hread⟩ := h.read r hr
    obtain ⟨u, hu, hun⟩ := h.tasks r.task (h.member r hr)
    obtain rfl := Option.some.inj (ht.symm.trans hu)
    obtain ⟨t', ht', -, hkeep⟩ := hun.next hd hstep ht (hpub r.task (h.member r hr))
    exact ⟨t', ht', hkeep _ _ hread⟩
  · intro hc m hm
    rcases h.owed hc m hm with hcounted | ho
    · exact .inl hcounted
    · refine .inr (ho.next ?_ hd hstep (hpub m hm) ?_ (hroute m hm))
      · intro t hfind
        obtain ⟨u, hu, hun⟩ := h.tasks m hm
        exact Option.some.inj (hu.symm.trans hfind) ▸ hun
      · rintro a ⟨r, hr, hrt, rfl, -⟩
        obtain ⟨t, hfind, b, hb, hid, hdec, -⟩ := h.read r hr
        exact ⟨t, hrt ▸ hfind, b, hb, hid, hdec, nofun⟩

theorem endRouting (h : s.Tracked) (k : Nat) : (s.endRouting k).Tracked := by
  refine ⟨h.nodup, h.fresh, h.tasks, fun r hr => h.member r (List.mem_of_mem_eraseIdx hr),
    fun r hr => h.read r (List.mem_of_mem_eraseIdx hr), ?_⟩
  intro hc m hm
  refine (h.owed hc m hm).imp id fun ho => ho.mono ?_
  rintro a ⟨r, hr, hrest⟩
  exact ⟨r, List.mem_of_mem_eraseIdx hr, hrest⟩

/-- A process may be done with an attempt of a member that is counted, or with one that is not
the one still to be routed. -/
theorem setRouting (h : s.Tracked) {k : Nat} {r : ParallelRouting} (hr : s.routings[k]? = some r)
    (phase : ParallelPhase) (hdone : phase.done = true → s.model.status ≠ .cancelled →
      r.phase.done = true ∨ (∃ a, (r.task, a) ∈ s.counted) ∨
        ∀ t a, s.life.store.task? r.task = some t → Unrouted t a → a.id ≠ r.attempt) :
    (s.setRouting k { r with phase }).Tracked := by
  have hin := List.mem_of_getElem? hr
  refine ⟨h.nodup, h.fresh, h.tasks, ?_, ?_, ?_⟩
  · intro x hx
    rcases List.mem_or_eq_of_mem_set hx with hx | rfl
    · exact h.member x hx
    · exact h.member r hin
  · intro x hx
    rcases List.mem_or_eq_of_mem_set hx with hx | rfl
    · exact h.read x hx
    · exact h.read r hin
  · intro hc m hm
    rcases h.owed hc m hm with hcounted | ⟨t, a, ht, ha, hnot⟩
    · exact .inl hcounted
    by_cases hnew : phase.done = true ∧ r.task = m ∧ r.attempt = a.id
    · obtain ⟨hp, rfl, hra⟩ := hnew
      rcases hdone hp hc with hold | hcounted | hother
      · exact absurd ⟨r, hin, rfl, hra, hold⟩ hnot
      · exact .inl hcounted
      · exact absurd hra.symm (hother t a ht ha)
    · refine .inr ⟨t, a, ht, ha, ?_⟩
      rintro ⟨x, hx, hxt, hxa, hp⟩
      rcases List.mem_or_eq_of_mem_set hx with hx | rfl
      · exact hnot ⟨x, hx, hxt, hxa, hp⟩
      · exact hnew ⟨hp, hxt, hxa⟩

/-- The same members and completions; what was counted stays so. -/
theorem row (h : s.Tracked) (hl : t.life = s.life) (hm : t.members = s.members)
    (hr : t.routings = s.routings) (hc : s.counted ⊆ t.counted)
    (hst : t.model.status ≠ .cancelled → s.model.status ≠ .cancelled) : t.Tracked := by
  have hdone (m : TaskId) : t.Done m = s.Done m := by
    unfold Done
    rw [hr]
  refine ⟨?_, ?_, ?_, ?_, ?_, ?_⟩
  · rw [hm]
    exact h.nodup
  · rw [hm, hl]
    exact h.fresh
  · rw [hm, hl]
    exact h.tasks
  · rw [hr, hm]
    exact h.member
  · rw [hr, hl]
    exact h.read
  · intro hne m hin
    rw [hdone, hl]
    rcases h.owed (hst hne) m (hm ▸ hin) with ⟨a, ha⟩ | ho
    · exact .inl ⟨a, hc ha⟩
    · exact .inr ho

/-- A member is created. -/
theorem joined (h : s.Tracked) (hl : (lifecycleSystem limit).Reach s.life) {metadata : QraftTask}
    {cluster : Option String} : (s.joined metadata cluster env).Tracked := by
  have hd := reach_distinct hl
  have hstep := step_asyncTask limit s.life metadata cluster env
  have h' : { s with life := s.life.createAndEnqueue metadata cluster env }.Tracked := by
    apply h.life hd hstep
    · intro m _ attempt he
      cases he
    · intro m _ j held attempt he
      cases he
  have hout : s.life.store.nextId ∉ s.members := fun hin => Nat.lt_irrefl _ (h.fresh _ hin)
  refine ⟨?_, ?_, ?_, ?_, h'.read, ?_⟩
  · apply List.nodup_append'.mpr
    exact ⟨h.nodup, List.nodup_singleton _, List.disjoint_singleton.mpr hout⟩
  · intro m hm
    rcases List.mem_append.mp hm with hm | hm
    · exact h'.fresh m hm
    · rw [List.mem_singleton.mp hm]
      exact Nat.lt_add_of_pos_right (by decide)
  · intro m hm
    rcases List.mem_append.mp hm with hm | hm
    · exact h'.tasks m hm
    · rw [List.mem_singleton.mp hm]
      exact unpublished_created (reach_known hl) hd metadata cluster env
  · exact fun r hr => List.mem_append_left _ (h.member r hr)
  · intro hc m hm
    rcases List.mem_append.mp hm with hm | hm
    · exact h'.owed hc m hm
    · rw [List.mem_singleton.mp hm]
      refine .inr (owing_created hd metadata cluster env ?_)
      rintro a ⟨r, hr, hrt, -⟩
      exact absurd (hrt ▸ h.member r hr) hout

end Tracked

private theorem tracked_effect (h : ParallelEffect defaults limit s env e t)
    (hl : (lifecycleSystem limit).Reach s.life) (hs : s.Tracked) (hok : s.sparesMarker e = true) :
    t.Tracked := by
  have hd := reach_distinct hl
  cases h with
  | quiet => exact hs
  | @table e life hf h =>
    have member {m : TaskId} (hm : m ∈ s.members) : s.isMember m = true := decide_eq_true hm
    apply hs.life hd h
    · rintro m hm attempt rfl
      simp [foreign, member hm] at hf
    · rintro m hm j held attempt rfl hdue hid
      simp [foreign, hdue, hid, member hm] at hf
  | @run h raises x t hx hi hp ht =>
    have hopen : ¬ s.model.status.Terminal := by simpa [sparesMarker, hx, hp] using hok
    have hstart : (s.started x.items.length env).Tracked :=
      hs.row rfl rfl rfl (fun _ h => h) fun _ hc => hopen (.inr (.inr hc))
    have hboth₀ : (lifecycleSystem limit).Reach (s.started x.items.length env).life ∧
        (s.started x.items.length env).Tracked := ⟨hl, hstart⟩
    have hboth : (lifecycleSystem limit).Reach t.life ∧ t.Tracked := by
      apply fanOut_induct (fun u => (lifecycleSystem limit).Reach u.life ∧ u.Tracked) _ hboth₀ ht
      rintro u metadata cluster ⟨hl, hu⟩
      exact ⟨.step (e := (.asyncTask metadata cluster none, env)) hl trivial
        (step_asyncTask limit u.life metadata cluster env), hu.joined hl⟩
    exact hboth.2
  | cancelled hrow =>
    obtain ⟨-, -, rfl⟩ := WorkflowRow.cancel_eq_some hrow
    exact hs.row rfl rfl rfl (fun _ h => h) fun h => absurd rfl h
  | @routed i held attempt a success hdue ha hsome hm =>
    refine ⟨hs.nodup, hs.fresh, hs.tasks, ?_, ?_, ?_⟩
    · intro r hr
      rcases List.mem_append.mp hr with hr | hr
      · exact hs.member r hr
      · rw [List.mem_singleton.mp hr]
        exact hm
    · intro r hr
      rcases List.mem_append.mp hr with hr | hr
      · exact hs.read r hr
      · rw [List.mem_singleton.mp hr]
        obtain ⟨u, hu, hun⟩ := hs.tasks _ hm
        obtain ⟨ham, haid⟩ := Rows.get?_eq_some ha
        obtain ⟨hany, hfail⟩ := hun.due _ (List.mem_of_getElem? hdue) (TaskStore.task?_eq_some hu).2.symm
        refine ⟨u, hu, ?_⟩
        cases success with
        | true => exact hany
        | false => exact hfail a ham haid hsome
    · intro hc m hm
      refine (hs.owed hc m hm).imp id fun ho => ho.mono ?_
      rintro b ⟨r, hr, hrest⟩
      rcases List.mem_append.mp hr with hr | hr
      · exact ⟨r, hr, hrest⟩
      · rw [List.mem_singleton.mp hr] at hrest
        cases hrest.2.2
  | handled hr => exact hs.setRouting hr _ fun h => by cases h
  | @declined k r hr hp hterm =>
    apply hs.setRouting hr
    intro _ _
    refine .inr (.inr fun u a hu hun he => ?_)
    obtain ⟨v, hv, hread⟩ := hs.read r (List.mem_of_getElem? hr)
    obtain rfl := Option.some.inj (hu.symm.trans hv)
    rw [isTaskTerminal, Bool.or_eq_false_iff] at hterm
    obtain ⟨hfail, hopen⟩ := hterm
    rw [hfail, ← he] at hread
    have hdead := hun.dead (hd.attempts u (TaskStore.task?_eq_some hu).1) hread
    rw [hu, Option.any_some, decide_eq_true hdead] at hopen
    cases hopen
  | skipped hr hp hskip =>
    apply hs.setRouting hr
    intro _ hc
    exact .inr (.inl ⟨_, hskip.resolve_left hc⟩)
  | @counted k r hr hp hc hnew hopen =>
    have hcount : (s.counting r env).Tracked :=
      hs.row rfl rfl rfl (fun p hp => List.mem_append_left _ hp) id
    apply hcount.setRouting hr
    exact fun _ _ => .inr (.inl ⟨r.attempt, List.mem_append_right _ (List.mem_singleton.mpr rfl)⟩)
  | @completed k r row hr hp hc hnew hfull hrow =>
    have hcount : (s.counting r env).Tracked :=
      hs.row rfl rfl rfl (fun p hp => List.mem_append_left _ hp) id
    have hset := hcount.setRouting hr
      (.announcing ((s.counting r env).model.withRow row) s.settlements.length)
      fun _ _ => .inr (.inl ⟨r.attempt, List.mem_append_right _ (List.mem_singleton.mpr rfl)⟩)
    exact hset.row rfl rfl rfl (fun _ h => h) fun _ => hc
  | announced hr hp =>
    have hset := hs.setRouting hr .returned fun _ _ => .inl (by rw [hp]; rfl)
    exact hset.row rfl rfl rfl (fun _ h => h) id
  | @finished k i r held life hr hp hdue ht h =>
    have hlife : { s with life }.Tracked := by
      apply hs.life hd h fun _ _ _ h => by cases h
      intro m hm j held' attempt he hj hid
      obtain rfl := LifecycleEvent.route.inj he
      obtain ⟨rfl, rfl⟩ := Prod.mk.inj (Option.some.inj (hdue.symm.trans hj))
      exact ⟨r, List.mem_of_getElem? hr, ht.symm.trans hid, rfl, by rw [hp]; rfl⟩
    exact hlife.endRouting k
  | crashed => exact hs.endRouting _

theorem reach_tracked
    (h : (parallelSystem defaults limit).ReachWhen (fun s e => s.sparesMarker e.1 = true) s) : s.Tracked := by
  apply StepSystem.ReachWhen.invariant_of (fun s : ParallelState => (lifecycleSystem limit).Reach s.life)
    Tracked (fun _ => reach_life) _ _ h
  · rintro s ⟨model, -, -, -, -, -, -, rfl⟩
    have hnone {α : Type} {x : α} {P : Prop} (hx : x ∈ ([] : List α)) : P := absurd hx List.not_mem_nil
    exact ⟨List.nodup_nil, fun _ => hnone, fun _ => hnone, fun _ => hnone, fun _ => hnone, fun _ _ => hnone⟩
  · rintro s ⟨e, env⟩ s' hl ih hok hstep
    obtain ⟨t, handles, he, rfl⟩ := step_effect hstep
    have ht := tracked_effect he hl ih hok
    exact ht.row rfl rfl rfl (fun _ h => h) id

/-- A workflow with a completion to count was run. -/
private theorem Paced.not_pending (h : s.Paced) (htr : s.Tracked) {k : Nat} {r : ParallelRouting}
    (hr : s.routings[k]? = some r) : s.model.status ≠ .pending := by
  intro hst
  have hm := htr.member r (List.mem_of_getElem? hr)
  rw [h.pending hst] at hm
  exact absurd hm List.not_mem_nil

private theorem paced_effect (h : ParallelEffect defaults limit s env e t) (hb : s.Belongs)
    (htr : s.Tracked) (htr' : t.Tracked) (hm : s.model.Marked) (hs : s.Paced) : t.Paced := by
  cases h with
  | quiet | table | routed | handled | declined | skipped | announced | finished | crashed =>
    exact ⟨hs.total, hs.pending, hs.ungated, hs.running⟩
  | @run h raises x t hx hi hp ht =>
    obtain ⟨life, ms, hlen, rfl⟩ := fanOut_eq ht
    refine ⟨?_, (fun h => by cases h), (fun h => by cases h), fun _ => .inr ?_⟩
    · show x.items.length ≤ (s.members ++ ms).length
      rw [List.length_append]
      omega
    · have hpos : 0 < ms.length := hlen ▸ List.length_pos_iff.mpr hi
      obtain ⟨m, hm⟩ := List.exists_mem_of_length_pos hpos
      refine ⟨m, List.mem_append_right _ hm, ?_⟩
      rintro p hp rfl
      exact List.disjoint_of_nodup_append htr'.nodup (hb.counted p hp) hm
  | cancelled hrow =>
    obtain ⟨-, -, rfl⟩ := WorkflowRow.cancel_eq_some hrow
    exact ⟨hs.total, (fun h => by cases h), (fun h => by cases h), (fun h => by cases h)⟩
  | counted hr hp hc hnew hopen =>
    refine ⟨hs.total, fun h => absurd h (hs.not_pending htr hr), hs.ungated, ?_⟩
    intro hrun
    have hrun : s.model.status = .running := hrun
    have hterm : ¬ s.model.status.Terminal := by
      rw [hrun]
      decide
    refine .inl (Nat.lt_of_not_le fun hfull => ?_)
    rcases hopen hfull with hset | hset
    · exact hset (hm.settledAt_eq_none hterm)
    · exact hterm hset
  | @completed k r row hr hp hc hnew hfull hrow =>
    obtain ⟨-, -, rfl⟩ := WorkflowRow.settleWorkflow_eq_some hrow
    have hterm := (s.model.count r.success env.now).outcome_terminal
    have hne {st : WorkflowStatus} (hst : ¬ st.Terminal) :
        (s.model.count r.success env.now).outcome ≠ st := fun he => hst (he ▸ hterm)
    exact ⟨hs.total, fun h => absurd h (hne (by decide)), hne (by decide), fun h => absurd h (hne (by decide))⟩

theorem reach_paced
    (h : (parallelSystem defaults limit).ReachWhen (fun s e => s.sparesMarker e.1 = true) s) : s.Paced := by
  apply StepSystem.ReachWhen.invariant_of
    (fun s : ParallelState => (parallelSystem defaults limit).ReachWhen (fun s e => s.sparesMarker e.1 = true) s)
    Paced (fun _ hs => hs) _ _ h
  · rintro s ⟨model, hst, -, htot, -, -, -, rfl⟩
    refine ⟨htot.le, fun _ => rfl, ?_, ?_⟩
    · exact fun h => by cases hst.symm.trans h
    · exact fun h => by cases hst.symm.trans h
  · rintro s ⟨e, env⟩ s' hreach ih hok hstep
    have htr' := reach_tracked (.step hreach hok hstep)
    obtain ⟨t, handles, he, rfl⟩ := step_effect hstep
    have htr' : t.Tracked := htr'.row rfl rfl rfl (fun _ h => h) id
    have ht := paced_effect he (reach_belongs hreach.reach) (reach_tracked hreach) htr'
      (reach_marked hreach) ih
    exact ⟨ht.total, ht.pending, ht.ungated, ht.running⟩

/-- A step that dispatches nothing and keeps the status. -/
theorem Posted.calm (h : s.Posted) (hd : t.hookTable.dispatches = s.hookTable.dispatches)
    (ho : t.outstanding = s.outstanding) (hst : t.model.status = s.model.status)
    (hc : ∀ ty, t.model.hookOf ty = s.model.hookOf ty) : t.Posted := by
  refine ⟨?_, ?_, ?_, ?_⟩
  · rw [ho]
    exact h.single
  · rw [hst, ho, hd]
    exact h.unsettled
  · simp only [hst, ho, hd, hc]
    exact h.awaiting
  · rw [hst, ho, hd, hc]
    exact h.posted

/-- A process parts with the settlement it had to announce: no hook is configured, or it is dispatched. -/
theorem Posted.parts (h : s.Posted) {m : QraftParallelModel} (ho : s.outstanding.Perm (m :: t.outstanding))
    (hst : t.model.status = s.model.status) (hc : ∀ ty, t.model.hookOf ty = s.model.hookOf ty)
    (hd : s.hookTable.dispatches = [] → m.hookOf m.hookType = none ∨
      ∃ d, d.hookType = m.hookType ∧ t.hookTable.dispatches = [d]) : t.Posted := by
  have hlen := ho.length_eq
  rw [List.length_cons] at hlen
  have hnil : t.outstanding = [] := List.length_eq_zero_iff.mp (by have := h.single; omega)
  have hin : m ∈ s.outstanding := ho.mem_iff.mpr List.mem_cons_self
  refine ⟨?_, ?_, fun _ x hx => absurd (hnil ▸ hx) List.not_mem_nil, ?_⟩
  · rw [hnil, List.length_nil]
    exact Nat.zero_le 1
  · rw [hst]
    intro hterm
    rw [(h.unsettled hterm).1] at hin
    exact absurd hin List.not_mem_nil
  · rw [hst, hc]
    intro hended _ hconf
    obtain ⟨hty, hrow, hnone⟩ := h.awaiting hended m hin
    rcases hd hnone with hnot | ⟨d, hdty, hd⟩
    · rw [hrow, hty] at hnot
      exact absurd hnot hconf
    · rw [hd, List.map_singleton, hdty, hty]

private theorem posted_effect (h : ParallelEffect defaults limit s env e t) (hs : s.Posted)
    (hmark : s.sparesMarker e = true) (hok : s.sparesDispatch e = true) : t.Posted := by
  have quiet {k : Nat} {r : ParallelRouting} {phase : ParallelPhase} (hr : s.routings[k]? = some r)
      (ha : r.phase.announcement = none) (hb : phase.announcement = none) :
      (s.setRouting k { r with phase }).outstanding = s.outstanding :=
    InFlight.filterMap_set_none hr ha hb
  cases h with
  | quiet => exact hs
  | table => exact hs.calm rfl rfl rfl fun _ => rfl
  | routed =>
    refine hs.calm rfl ?_ rfl fun _ => rfl
    rw [outstanding, List.filterMap_append]
    exact List.append_nil _
  | handled hr hp | declined hr hp | skipped hr hp =>
    exact hs.calm rfl (quiet hr (by rw [hp]; rfl) rfl) rfl fun _ => rfl
  | counted hr hp =>
    exact hs.calm rfl (quiet hr (by rw [hp]; rfl) rfl) rfl (WorkflowRow.hookOf_congr rfl rfl rfl)
  | finished hr hp =>
    refine hs.calm rfl ?_ rfl fun _ => rfl
    exact InFlight.filterMap_eraseIdx_none hr (by rw [hp]; rfl)
  | @crashed k =>
    cases hr : s.routings[k]? with
    | none =>
      refine hs.calm rfl ?_ rfl fun _ => rfl
      rw [outstanding, endRouting, List.eraseIdx_of_length_le (List.getElem?_eq_none_iff.mp hr), outstanding]
    | some r =>
      cases ha : r.phase.announcement with
      | none => exact hs.calm rfl (InFlight.filterMap_eraseIdx_none hr ha) rfl fun _ => rfl
      | some m =>
        have hnone : m.hookOf m.hookType = none := by simpa [sparesDispatch, hr, ha] using hok
        exact hs.parts (InFlight.filterMap_cons_eraseIdx hr ha) rfl (fun _ => rfl)
          fun _ => .inl hnone
  | run hx hi hp ht =>
    obtain ⟨life, ms, -, rfl⟩ := fanOut_eq ht
    have hopen : ¬ s.model.status.Terminal := by simpa [sparesMarker, hx, hp] using hmark
    have hrunning : ¬ (WorkflowStatus.running = .succeeded ∨ WorkflowStatus.running = .failed) := by decide
    exact ⟨hs.single, fun _ => hs.unsettled hopen, fun h => absurd h hrunning, fun h => absurd h hrunning⟩
  | cancelled hrow =>
    obtain ⟨-, -, rfl⟩ := WorkflowRow.cancel_eq_some hrow
    have hcancelled : ¬ (WorkflowStatus.cancelled = .succeeded ∨ WorkflowStatus.cancelled = .failed) := by
      decide
    exact ⟨hs.single, fun h => absurd (.inr (.inr rfl)) h, fun h => absurd h hcancelled,
      fun h => absurd h hcancelled⟩
  | @completed k r row hr hp hc hnew hfull hrow =>
    obtain ⟨-, hterm, hrow'⟩ := WorkflowRow.settleWorkflow_eq_some hrow
    obtain ⟨hnil, hnone⟩ := hs.unsettled hterm
    have hout : (((s.counting r env).settled row).setRouting k { r with
        phase := .announcing ((s.counting r env).model.withRow row) s.settlements.length }).outstanding =
        [(s.counting r env).model.withRow row] := InFlight.filterMap_set_some hr hnil rfl
    refine ⟨?_, ?_, ?_, ?_⟩
    · rw [hout, List.length_singleton]
    · rw [hrow']
      exact fun h => absurd (s.model.count r.success env.now).outcome_terminal h
    · rw [hout, hrow']
      intro _ m hm
      rw [List.mem_singleton.mp hm]
      exact ⟨(s.model.count r.success env.now).outcome_hookType.symm, fun _ => rfl, hnone⟩
    · rw [hout]
      exact fun _ h => absurd h (List.cons_ne_nil _ _)
  | @announced k r m n raises hr hp =>
    have ha : r.phase.announcement = some m := by rw [hp]; rfl
    have hclaim : (m.hookOf m.hookType).isNone = true ∨ raises = false := by
      simpa [sparesDispatch, hr, ha] using hok
    refine hs.parts (InFlight.filterMap_cons_set hr ha rfl) rfl (fun _ => rfl) fun hnil => ?_
    obtain ⟨h, -, -, heq⟩ | ⟨hno, -⟩ := s.hookTable.dispatchOnce_eq m.hookType (m.hookOf m.hookType)
      m.workflowHookContext n raises
    · refine .inr ⟨⟨m.hookType, h.path⟩, rfl, ?_⟩
      have hrows := congrArg HookTable.dispatches heq
      rw [hnil] at hrows
      exact hrows
    · rcases hclaim with hnone | hquiet
      · exact .inl (Option.isNone_iff_eq_none.mp hnone)
      · refine .inl (hno.resolve_right ?_)
        rw [HookTable.admits, hnil, hquiet]
        exact Bool.noConfusion

theorem reach_posted
    (h : (parallelSystem defaults limit).ReachWhen
      (fun s e => s.sparesMarker e.1 = true ∧ s.sparesDispatch e.1 = true) s) : s.Posted := by
  apply StepSystem.ReachWhen.invariant Posted _ _ h
  · rintro s ⟨model, hst, -, -, -, -, -, rfl⟩
    have hopen : ¬ (model.status = .succeeded ∨ model.status = .failed) := by
      rw [hst]
      decide
    exact ⟨Nat.zero_le 1, fun _ => ⟨rfl, rfl⟩, fun h => absurd h hopen, fun h => absurd h hopen⟩
  · rintro s ⟨e, env⟩ s' ih ⟨hmark, hok⟩ hstep
    obtain ⟨t, handles, he, rfl⟩ := step_effect hstep
    have ht := posted_effect he ih hmark hok
    exact ht.calm rfl rfl rfl fun _ => rfl

/-- Once every attempt of the members is flagged, a workflow that was run and not cancelled has
settled, and its hook is dispatched once. -/
theorem replay_settles
    (h : (parallelSystem defaults limit).ReachWhen
      (fun s e => s.sparesMarker e.1 = true ∧ s.sparesDispatch e.1 = true) s)
    (hm : s.members ≠ []) (hc : s.model.status ≠ .cancelled)
    (hr : ∀ m ∈ s.members, s.life.replayed m = true) (ho : s.outstanding = []) :
    (s.model.status = .succeeded ∨ s.model.status = .failed) ∧
    (s.model.hookOf s.model.status.hookType ≠ none →
      (s.hookTable.dispatches.map fun d => d.hookType) = [s.model.status.hookType]) := by
  have hmark := h.mono (Q := fun s e => s.sparesMarker e.1 = true) fun _ _ hok => hok.1
  have htr := reach_tracked hmark
  have hp := reach_paced hmark
  have hcounted : ∀ m ∈ s.members, ∃ a, (m, a) ∈ s.counted := by
    intro m hin
    rcases htr.owed hc m hin with hcounted | howing
    · exact hcounted
    · cases (hr m hin).symm.trans howing.not_replayed
  have hst : s.model.status = .succeeded ∨ s.model.status = .failed := by
    cases hst : s.model.status with
    | pending => exact absurd (hp.pending hst) hm
    | waitingApproval => exact absurd hst hp.ungated
    | cancelled => exact absurd hst hc
    | succeeded => exact .inl rfl
    | failed => exact .inr rfl
    | running =>
      -- All members are counted, so the count is full.
      rcases hp.running hst with hfew | ⟨m, hin, hnone⟩
      · have hsub : s.members ⊆ s.counted.map fun p => p.1 := by
          intro m hin
          obtain ⟨a, ha⟩ := hcounted m hin
          exact List.mem_map.mpr ⟨(m, a), ha, rfl⟩
        have hle := (List.subperm_of_subset htr.nodup hsub).length_le
        rw [List.length_map, ← (reach_conserved h.reach).count] at hle
        have htot := hp.total
        omega
      · obtain ⟨a, ha⟩ := hcounted m hin
        exact absurd rfl (hnone _ ha)
  exact ⟨hst, (reach_posted h).posted hst ho⟩

end

end ParallelState

/-- As long as no process dies between a settlement and the dispatch of its hook, no enqueue of a hook
raises, and none of a chain finds the row of another settlement: a workflow of any kind whose members'
attempts are all flagged has settled, short of a chain that waits for an approval, and its hook is
dispatched exactly once. -/
theorem hook_replayed (defaults : RetryDefaults) (limit : Nat) :
    (∀ s, (chainSystem defaults limit).ReachWhen
        (fun s e => s.sparesMarker e.1 = true ∧ s.sparesDispatch e.1 = true) s →
      (∀ q ∈ s.queued, s.life.replayed q.task = true) →
      (∀ x ∈ s.outstanding, x.2.2 + 1 ≠ s.settlements.length) →
      s.chain.status ≠ .running ∧
      (s.chain.status = .succeeded ∨ s.chain.status = .failed →
        s.chain.hookOf s.chain.status.hookType ≠ none →
        (s.sent (s.settlements.length - 1)).length = 1 ∧
        (s.hookTable.dispatches.map fun d => d.hookType).count s.chain.status.hookType = 1)) ∧
    ∀ s, (parallelSystem defaults limit).ReachWhen
        (fun s e => s.sparesMarker e.1 = true ∧ s.sparesDispatch e.1 = true) s →
      s.members ≠ [] → s.model.status ≠ .cancelled →
      (∀ m ∈ s.members, s.life.replayed m = true) → s.outstanding = [] →
      (s.model.status = .succeeded ∨ s.model.status = .failed) ∧
      (s.model.hookOf s.model.status.hookType ≠ none →
        (s.hookTable.dispatches.map fun d => d.hookType) = [s.model.status.hookType]) := by
  constructor
  · intro s h hr ho
    exact ChainState.replay_settles h hr ho
  · intro s h hm hc hr ho
    exact ParallelState.replay_settles h hm hc hr ho

namespace ParallelState

def hooked : ParallelState :=
  { model := { id := 0, kind := .batch, failureHook := some { path := "app.on_failure" } } }

theorem hooked_init (defaults : RetryDefaults) (limit : Nat) :
    (parallelSystem defaults limit).init hooked :=
  ⟨hooked.model, rfl, rfl, rfl, rfl, rfl, rfl, rfl⟩

/-- Its one member fails and settles it, and the hook is still to dispatch. -/
def failedUnannounced : List (ParallelEvent × Env) := [
  clock 1 (.load [{ func := "f" }]),
  clock 1 (.run 0 none),
  clock 2 (.table (.saveResult { id := 2, success := false, stopped := 2 })),
  clock 2 (.table (.handleResult 0)),
  clock 3 (.route 0),
  clock 3 (.handle 0),
  clock 3 (.increment 0)]

end ParallelState

/-- Both kinds are settled by a process that dies before it has flagged the attempt. -/
theorem hook_replayed_runs :
    (∃ s : ChainState, (chainSystem {} 1).ReachWhen
        (fun s e => s.sparesMarker e.1 = true ∧ s.sparesDispatch e.1 = true) s ∧
      s.chain.status = .failed ∧ (s.hookTable.dispatches.map fun d => d.hookType).count .failure = 1) ∧
    ∃ s : ParallelState, (parallelSystem {} 1).ReachWhen
        (fun s e => s.sparesMarker e.1 = true ∧ s.sparesDispatch e.1 = true) s ∧
      s.model.status = .failed ∧ (s.hookTable.dispatches.map fun d => d.hookType) = [.failure] := by
  constructor
  · obtain ⟨s, hr, hp⟩ := StepSystem.exists_reach_of_run
      ((chainSystem {} 1).guard fun s e => s.sparesMarker e.1 = true ∧ s.sparesDispatch e.1 = true)
      (ChainState.failedUnannounced ++ [ChainState.clock 3 (.announce 0 false), ChainState.clock 3 (.crash 0),
        ChainState.clock 9 (.table (.replayUnrouted 0 1 8)), ChainState.clock 9 (.route 1 0),
        ChainState.clock 9 (.handle 0), ChainState.clock 9 (.stepFailure 0),
        ChainState.clock 9 (.finish 0 1)])
      (.init (ChainState.hooked_init {} 1))
      (fun s => s.chain.status = .failed ∧ s.queued.all (fun q => s.life.replayed q.task) ∧
        s.outstanding.isEmpty ∧ (s.chain.hookOf s.chain.status.hookType).isSome) (by decide)
    obtain ⟨hst, hall, hnil, hconf⟩ := of_decide_eq_true hp
    have hreach := StepSystem.reachWhen_of_guard hr
    rw [List.isEmpty_iff] at hnil
    have hone := (((hook_replayed {} 1).1 s hreach (List.all_eq_true.mp hall)
      (fun x hx => absurd (hnil ▸ hx) List.not_mem_nil)).2 (.inr hst) (Option.isSome_iff_ne_none.mp hconf)).2
    rw [hst] at hone
    exact ⟨s, hreach, hst, hone⟩
  · obtain ⟨s, hr, hp⟩ := StepSystem.exists_reach_of_run
      ((parallelSystem {} 1).guard fun s e => s.sparesMarker e.1 = true ∧ s.sparesDispatch e.1 = true)
      (ParallelState.failedUnannounced ++ [ParallelState.clock 3 (.announce 0 false),
        ParallelState.clock 3 (.crash 0), ParallelState.clock 9 (.table (.replayUnrouted 0 1 8)),
        ParallelState.clock 9 (.route 1), ParallelState.clock 9 (.handle 0),
        ParallelState.clock 9 (.increment 0), ParallelState.clock 9 (.finish 0 1)])
      (.init (ParallelState.hooked_init {} 1))
      (fun s => s.model.status = .failed ∧ s.members ≠ [] ∧ s.members.all (fun m => s.life.replayed m) ∧
        s.outstanding.isEmpty ∧ (s.model.hookOf s.model.status.hookType).isSome) (by decide)
    obtain ⟨hst, hmem, hall, hnil, hconf⟩ := of_decide_eq_true hp
    have hreach := StepSystem.reachWhen_of_guard hr
    have hc : s.model.status ≠ .cancelled := by
      rw [hst]
      decide
    have hone := ((hook_replayed {} 1).2 s hreach hmem hc (List.all_eq_true.mp hall)
      (List.isEmpty_iff.mp hnil)).2 (Option.isSome_iff_ne_none.mp hconf)
    rw [hst] at hone
    exact ⟨s, hreach, hst, hone⟩

/-- The process that settled the workflow dies before it dispatches the hook. The replay finds
the workflow settled, or the attempt counted, and flags the attempt. -/
theorem hook_lost :
    (∃ s : ChainState, (chainSystem {} 1).Reach s ∧ s.chain.status = .failed ∧
      (s.chain.hookOf .failure).isSome ∧ (∀ q ∈ s.queued, s.life.replayed q.task = true) ∧
      s.routings.length = 0 ∧ s.hookTable.dispatches.length = 0) ∧
    ∃ s : ParallelState, (parallelSystem {} 1).Reach s ∧ s.model.status = .failed ∧
      (s.model.hookOf .failure).isSome ∧ (∀ m ∈ s.members, s.life.replayed m = true) ∧
      s.routings.length = 0 ∧ s.hookTable.dispatches.length = 0 := by
  constructor
  · obtain ⟨s, hr, hp⟩ := StepSystem.exists_reach_of_run (chainSystem {} 1)
      (ChainState.failedUnannounced ++ [ChainState.clock 3 (.crash 0),
        ChainState.clock 9 (.table (.replayUnrouted 0 1 8)), ChainState.clock 9 (.route 1 0),
        ChainState.clock 9 (.handle 0), ChainState.clock 9 (.stepFailure 0),
        ChainState.clock 9 (.finish 0 1)])
      (.init (ChainState.hooked_init {} 1))
      (fun s => s.chain.status = .failed ∧ (s.chain.hookOf .failure).isSome ∧
        s.queued.all (fun q => s.life.replayed q.task) ∧
        s.routings.length = 0 ∧ s.hookTable.dispatches.length = 0) (by decide)
    obtain ⟨hst, hconf, hall, hnone⟩ := of_decide_eq_true hp
    exact ⟨s, hr, hst, hconf, List.all_eq_true.mp hall, hnone⟩
  · obtain ⟨s, hr, hp⟩ := StepSystem.exists_reach_of_run (parallelSystem {} 1)
      (ParallelState.failedUnannounced ++ [ParallelState.clock 3 (.crash 0),
        ParallelState.clock 9 (.table (.replayUnrouted 0 1 8)), ParallelState.clock 9 (.route 1),
        ParallelState.clock 9 (.handle 0), ParallelState.clock 9 (.increment 0),
        ParallelState.clock 9 (.finish 0 1)])
      (.init (ParallelState.hooked_init {} 1))
      (fun s => s.model.status = .failed ∧ (s.model.hookOf .failure).isSome ∧
        s.members.all (fun m => s.life.replayed m) ∧
        s.routings.length = 0 ∧ s.hookTable.dispatches.length = 0) (by decide)
    obtain ⟨hst, hconf, hall, hnone⟩ := of_decide_eq_true hp
    exact ⟨s, hr, hst, hconf, List.all_eq_true.mp hall, hnone⟩

end Qraft
