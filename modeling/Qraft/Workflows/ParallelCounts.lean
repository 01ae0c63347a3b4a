import Qraft.Workflows.ParallelEffects

/-! What an iter or batch counts: each completion once, none after a cancellation, and the last
one settles it. -/
namespace Qraft

namespace QraftParallelModel
variable (m : QraftParallelModel) (w : WorkflowRow) (success : Bool) (now : Time)

@[simp] theorem withRow_toWorkflowRow : (m.withRow w).toWorkflowRow = w := rfl
@[simp] theorem withRow_totalCount : (m.withRow w).totalCount = m.totalCount := rfl
@[simp] theorem withRow_completedCount : (m.withRow w).completedCount = m.completedCount := rfl
@[simp] theorem withRow_successCount : (m.withRow w).successCount = m.successCount := rfl
@[simp] theorem withRow_failureCount : (m.withRow w).failureCount = m.failureCount := rfl
@[simp] theorem count_status : (m.count success now).status = m.status := rfl
@[simp] theorem count_settledAt : (m.count success now).settledAt = m.settledAt := rfl
@[simp] theorem count_totalCount : (m.count success now).totalCount = m.totalCount := rfl
@[simp] theorem count_completedCount : (m.count success now).completedCount = m.completedCount + 1 := rfl

theorem count_sum (h : m.completedCount = m.successCount + m.failureCount) :
    (m.count success now).completedCount =
      (m.count success now).successCount + (m.count success now).failureCount := by
  cases success with
  | true =>
    show m.completedCount + 1 = m.successCount + 1 + m.failureCount
    omega
  | false =>
    show m.completedCount + 1 = m.successCount + (m.failureCount + 1)
    omega

theorem outcome_cases :
    (m.outcome = .succeeded ∧ m.failureCount = 0) ∨ (m.outcome = .failed ∧ m.failureCount ≠ 0) := by
  unfold outcome
  split
  · rename_i h
    exact .inl ⟨rfl, h⟩
  · rename_i h
    exact .inr ⟨rfl, h⟩

end QraftParallelModel

namespace ParallelState

/-- `run` finds the row as a handle that shows it pending does. -/
def runsPending (s : ParallelState) : ParallelEvent → Bool
  | .run h _ => s.handles[h]?.all fun x => x.status ≠ .pending || s.model.status = .pending
  | _ => true

/-- What the counters say in any state. -/
structure Conserved (s : ParallelState) : Prop where
  sum : s.model.completedCount = s.model.successCount + s.model.failureCount
  count : s.model.completedCount = s.counted.length
  nodup : s.counted.Nodup
  /-- Settled once, and marked so. -/
  once : s.settlements.length ≤ 1
  unsettled : s.model.settledAt = none → s.settlements = []

section
variable {defaults : RetryDefaults} {limit : Nat} {s t : ParallelState} {env : Env} {e : ParallelEvent}

namespace Conserved

theorem settled (h : s.Conserved) (status : WorkflowStatus) (env : Env)
    (hopen : s.model.settledAt = none) :
    (s.settled { s.model.toWorkflowRow with
      status, settledAt := some env.now, dateUpdated := env.now }).Conserved := by
  refine ⟨h.sum, h.count, h.nodup, ?_, fun hnone => absurd hnone (Option.some_ne_none env.now)⟩
  rw [ParallelState.settled, h.unsettled hopen]
  exact Nat.le_refl 1

theorem counting (h : s.Conserved) {r : ParallelRouting} (env : Env)
    (hnew : (r.task, r.attempt) ∉ s.counted) :
    (s.counting r env).Conserved := by
  refine ⟨s.model.count_sum r.success env.now h.sum, ?_, ?_, h.once, h.unsettled⟩
  · have hlen : (s.counting r env).counted.length = s.counted.length + 1 := List.length_append
    rw [hlen, ← h.count]
    rfl
  · exact List.nodup_append'.mpr ⟨h.nodup, List.nodup_singleton _, by simpa using hnew⟩

end Conserved

private theorem conserved_effect (h : ParallelEffect defaults limit s env e t) (hs : s.Conserved) :
    t.Conserved := by
  have keep {u : ParallelState} (hm : u.model.completedCount = s.model.completedCount ∧
      u.model.successCount = s.model.successCount ∧ u.model.failureCount = s.model.failureCount ∧
      u.model.settledAt = s.model.settledAt) (hc : u.counted = s.counted)
      (hn : u.settlements = s.settlements) : u.Conserved := by
    obtain ⟨h₁, h₂, h₃, h₄⟩ := hm
    refine ⟨?_, ?_, ?_, ?_, ?_⟩
    · rw [h₁, h₂, h₃]
      exact hs.sum
    · rw [h₁, hc]
      exact hs.count
    · rw [hc]
      exact hs.nodup
    · rw [hn]
      exact hs.once
    · rw [h₄, hn]
      exact hs.unsettled
  cases h with
  | quiet | table | routed | handled | declined | skipped | announced | finished | crashed =>
    exact keep ⟨rfl, rfl, rfl, rfl⟩ rfl rfl
  | run hx hi hp ht =>
    obtain ⟨life, ms, -, rfl⟩ := fanOut_eq ht
    exact keep ⟨rfl, rfl, rfl, rfl⟩ rfl rfl
  | cancelled hrow =>
    obtain ⟨hopen, -, rfl⟩ := WorkflowRow.cancel_eq_some hrow
    have hset := hs.settled .cancelled env hopen
    exact ⟨hset.sum, hset.count, hset.nodup, hset.once, hset.unsettled⟩
  | counted hr hp hc hnew =>
    have hcount := hs.counting env hnew
    exact ⟨hcount.sum, hcount.count, hcount.nodup, hcount.once, hcount.unsettled⟩
  | @completed k r row hr hp hc hnew hfull hrow =>
    obtain ⟨hopen, -, rfl⟩ := WorkflowRow.settleWorkflow_eq_some hrow
    have hset := (hs.counting env hnew).settled
      (s.model.count r.success env.now).outcome env hopen
    exact ⟨hset.sum, hset.count, hset.nodup, hset.once, hset.unsettled⟩

theorem reach_conserved (h : (parallelSystem defaults limit).Reach s) : s.Conserved := by
  apply StepSystem.ReachWhen.invariant Conserved _ _ h
  · rintro s ⟨model, -, -, -, hc, hs, hf, rfl⟩
    refine ⟨?_, ?_, List.nodup_nil, Nat.zero_le 1, fun _ => rfl⟩
    · rw [hc, hs, hf]
    · exact hc
  · rintro s ⟨e, env⟩ s' ih - hstep
    obtain ⟨t, handles, he, rfl⟩ := step_effect hstep
    have ht := conserved_effect he ih
    exact ⟨ht.sum, ht.count, ht.nodup, ht.once, ht.unsettled⟩

/-- Only members are routed, and counted. -/
structure Belongs (s : ParallelState) : Prop where
  routed : ∀ r ∈ s.routings, r.task ∈ s.members
  counted : ∀ p ∈ s.counted, p.1 ∈ s.members

namespace Belongs

theorem setRouting (h : s.Belongs) {k : Nat} {r : ParallelRouting} (hr : s.routings[k]? = some r)
    (phase : ParallelPhase) : (s.setRouting k { r with phase }).Belongs := by
  refine ⟨?_, h.counted⟩
  intro x hx
  rcases List.mem_or_eq_of_mem_set hx with hx | rfl
  · exact h.routed x hx
  · exact h.routed r (List.mem_of_getElem? hr)

theorem endRouting (h : s.Belongs) (k : Nat) : (s.endRouting k).Belongs :=
  ⟨fun x hx => h.routed x (List.mem_of_mem_eraseIdx hx), h.counted⟩

theorem counting (h : s.Belongs) {k : Nat} {r : ParallelRouting} (env : Env)
    (hr : s.routings[k]? = some r) :
    (s.counting r env).Belongs := by
  refine ⟨h.routed, ?_⟩
  intro p hp
  rcases List.mem_append.mp hp with hp | hp
  · exact h.counted p hp
  · cases List.mem_singleton.mp hp
    exact h.routed r (List.mem_of_getElem? hr)

end Belongs

private theorem belongs_effect (h : ParallelEffect defaults limit s env e t) (hs : s.Belongs) :
    t.Belongs := by
  cases h with
  | quiet | table | cancelled => exact ⟨hs.routed, hs.counted⟩
  | run hx hi hp ht =>
    obtain ⟨life, ms, -, rfl⟩ := fanOut_eq ht
    exact ⟨fun r hr => List.mem_append_left ms (hs.routed r hr),
      fun p hp => List.mem_append_left ms (hs.counted p hp)⟩
  | routed hd ha hsome hm =>
    refine ⟨?_, hs.counted⟩
    intro r hr
    rcases List.mem_append.mp hr with hr | hr
    · exact hs.routed r hr
    · cases List.mem_singleton.mp hr
      exact hm
  | handled hr | declined hr | skipped hr => exact hs.setRouting hr _
  | counted hr => exact (hs.counting env hr).setRouting hr _
  | @completed k r row hr hp hc hnew hfull hrow =>
    have h := (hs.counting env hr).setRouting hr
      (.announcing ((s.counting r env).model.withRow row) s.settlements.length)
    exact ⟨h.routed, h.counted⟩
  | announced hr =>
    have h := hs.setRouting hr .returned
    exact ⟨h.routed, h.counted⟩
  | @finished k i r held life hr hp hd ht h =>
    have h := hs.endRouting k
    exact ⟨h.routed, h.counted⟩
  | crashed => exact hs.endRouting _

theorem reach_belongs (h : (parallelSystem defaults limit).Reach s) : s.Belongs := by
  apply StepSystem.ReachWhen.invariant Belongs _ _ h
  · rintro s ⟨model, -, -, -, -, -, -, rfl⟩
    exact ⟨fun r hr => absurd hr List.not_mem_nil, fun p hp => absurd hp List.not_mem_nil⟩
  · rintro s ⟨e, env⟩ s' ih - hstep
    obtain ⟨t, handles, he, rfl⟩ := step_effect hstep
    have ht := belongs_effect he ih
    exact ⟨ht.routed, ht.counted⟩

/-- How full a workflow is in each status, where it was only run when pending. -/
structure Filling (s : ParallelState) : Prop where
  pending : s.model.status = .pending → s.members = [] ∧ s.model.completedCount = 0 ∧
    s.model.settledAt = none
  running : s.model.status = .running → s.model.completedCount < s.model.totalCount ∧
    s.model.settledAt = none
  ungated : s.model.status ≠ .waitingApproval
  full : s.model.status = .succeeded ∨ s.model.status = .failed →
    s.model.totalCount ≤ s.model.completedCount

namespace Filling

/-- A workflow has no completion to count before it is run. -/
theorem not_pending (h : s.Filling) (hb : s.Belongs) {k : Nat} {r : ParallelRouting}
    (hr : s.routings[k]? = some r) : s.model.status ≠ .pending := by
  intro hst
  have hm := hb.routed r (List.mem_of_getElem? hr)
  rw [(h.pending hst).1] at hm
  exact absurd hm List.not_mem_nil

/-- A workflow with a completion to count is running, or has ended. -/
theorem running_of_open (h : s.Filling) (hb : s.Belongs) {k : Nat} {r : ParallelRouting}
    (hr : s.routings[k]? = some r) (hterm : ¬ s.model.status.Terminal) : s.model.status = .running := by
  cases hst : s.model.status with
  | pending => exact absurd hst (h.not_pending hb hr)
  | running => rfl
  | waitingApproval => exact absurd hst h.ungated
  | succeeded => exact absurd (.inl hst) hterm
  | failed => exact absurd (.inr (.inl hst)) hterm
  | cancelled => exact absurd (.inr (.inr hst)) hterm

end Filling

private theorem filling_effect (h : ParallelEffect defaults limit s env e t) (hb : s.Belongs)
    (hs : s.Filling) (hok : s.runsPending e = true) : t.Filling := by
  cases h with
  | quiet | table | routed | handled | declined | skipped | announced | finished | crashed =>
    exact ⟨hs.pending, hs.running, hs.ungated, hs.full⟩
  | @run h raises x t hx hi hp ht =>
    obtain ⟨life, ms, -, rfl⟩ := fanOut_eq ht
    have hpend : s.model.status = .pending := by
      rw [runsPending, hx, Option.all_some, hp] at hok
      simpa using hok
    obtain ⟨-, hc, hopen⟩ := hs.pending hpend
    have hc : (s.started x.items.length env).model.completedCount = 0 := hc
    have hfew : (s.started x.items.length env).model.completedCount < x.items.length :=
      hc ▸ List.length_pos_iff.mpr hi
    exact ⟨nofun, fun _ => ⟨hfew, hopen⟩, nofun, fun hst => hst.elim nofun nofun⟩
  | cancelled hrow =>
    obtain ⟨-, -, rfl⟩ := WorkflowRow.cancel_eq_some hrow
    exact ⟨nofun, nofun, nofun, fun hst => hst.elim nofun nofun⟩
  | counted hr hp hc hnew hopen =>
    refine ⟨fun hst => absurd hst (hs.not_pending hb hr), ?_, hs.ungated,
      fun hst => Nat.le_succ_of_le (hs.full hst)⟩
    intro hst
    have hst : s.model.status = .running := hst
    obtain ⟨-, hnone⟩ := hs.running hst
    refine ⟨?_, hnone⟩
    by_contra hfull
    rcases hopen (Nat.le_of_not_lt hfull) with h | h
    · exact h hnone
    · rw [hst] at h
      exact absurd h (by decide)
  | @completed k r row hr hp hc hnew hfull hrow =>
    obtain ⟨-, -, rfl⟩ := WorkflowRow.settleWorkflow_eq_some hrow
    have hne {st : WorkflowStatus} (ho : (s.model.count r.success env.now).outcome = st)
        (hsucc : st ≠ .succeeded) : st = .failed := by
      rcases (s.model.count r.success env.now).outcome_cases with ⟨he, -⟩ | ⟨he, -⟩
      · exact absurd (ho.symm.trans he) hsucc
      · exact ho.symm.trans he
    refine ⟨?_, ?_, ?_, fun _ => hfull⟩
    · exact fun hst => nomatch hne hst nofun
    · exact fun hst => nomatch hne hst nofun
    · exact fun hst => nomatch hne hst nofun

theorem reach_filling
    (h : (parallelSystem defaults limit).ReachWhen (fun s e => s.runsPending e.1 = true) s) : s.Filling := by
  apply StepSystem.ReachWhen.invariant_of Belongs Filling (fun s hs => reach_belongs hs.reach) _ _ h
  · rintro s ⟨model, hst, hnone, -, hc, -, -, rfl⟩
    refine ⟨fun _ => ⟨rfl, hc, hnone⟩, ?_, ?_, ?_⟩
    · exact fun h => nomatch hst.symm.trans h
    · exact fun h => nomatch hst.symm.trans h
    · exact fun h => h.elim (fun h => nomatch hst.symm.trans h) (fun h => nomatch hst.symm.trans h)
  · rintro s ⟨e, env⟩ s' hb ih hok hstep
    obtain ⟨t, handles, he, rfl⟩ := step_effect hstep
    have ht := filling_effect he hb ih hok
    exact ⟨ht.pending, ht.running, ht.ungated, ht.full⟩

/-- A cancelled workflow counts no completion, and stays as it is. -/
private theorem cancelled_effect (h : ParallelEffect defaults limit s env e t)
    (hok : s.runsPending e = true) (hc : s.model.status = .cancelled) :
    t.model = s.model ∧ t.counted = s.counted ∧ t.settlements = s.settlements := by
  cases h with
  | quiet | table | routed | handled | declined | skipped | announced | finished | crashed =>
    exact ⟨rfl, rfl, rfl⟩
  | run hx hi hp ht =>
    rw [runsPending, hx, Option.all_some, hp, hc] at hok
    exact absurd hok (by decide)
  | cancelled hrow =>
    have hterm := (WorkflowRow.cancel_eq_some hrow).2.1
    rw [hc] at hterm
    exact absurd (.inr (.inr rfl)) hterm
  | counted hr hp hne => exact absurd hc hne
  | completed hr hp hne => exact absurd hc hne

/-- A settlement that is no cancellation is made by the completion that fills the count. -/
private theorem settles_effect (h : ParallelEffect defaults limit s env e t) (hs : s.Conserved)
    (hne : t.settlements ≠ s.settlements) (hcancel : ∀ h raises, e ≠ .cancel h raises) :
    (∃ k r, e = .increment k ∧ s.routings[k]? = some r) ∧ ¬ s.model.status.Terminal ∧
      t.model.totalCount = s.model.totalCount ∧
      t.model.completedCount = s.model.completedCount + 1 ∧
      t.model.totalCount ≤ t.model.completedCount ∧ t.settlements = [t.model.status] ∧
      (t.model.status = .succeeded ↔ t.model.failureCount = 0) ∧
      (t.model.status = .failed ↔ t.model.failureCount ≠ 0) := by
  cases h with
  | quiet | table | routed | handled | declined | skipped | announced | finished | crashed | counted =>
    exact absurd rfl hne
  | run hx hi hp ht =>
    obtain ⟨life, ms, -, rfl⟩ := fanOut_eq ht
    exact absurd rfl hne
  | cancelled hrow => exact absurd rfl (hcancel _ _)
  | @completed k r row hr hp hc hnew hfull hrow =>
    obtain ⟨hopen, hterm, rfl⟩ := WorkflowRow.settleWorkflow_eq_some hrow
    refine ⟨⟨k, r, rfl, hr⟩, hterm, rfl, rfl, hfull, ?_, ?_⟩
    · have hnil : (s.counting r env).settlements = [] := hs.unsettled hopen
      rw [ParallelState.setRouting, ParallelState.settled, hnil]
      rfl
    · rcases (s.model.count r.success env.now).outcome_cases with ⟨ho, hf⟩ | ⟨ho, hf⟩
      · exact ⟨⟨fun _ => hf, fun _ => ho⟩, fun h => absurd (ho.symm.trans h) (by decide), fun h => absurd hf h⟩
      · exact ⟨⟨fun h => absurd (ho.symm.trans h) (by decide), fun h => absurd h hf⟩, fun _ => hf, fun _ => ho⟩

/-- The completion that fills the count settles the workflow. -/
private theorem fills_effect (h : ParallelEffect defaults limit s env e t) (hb : s.Belongs)
    (hs : s.Filling) (hok : s.runsPending e = true)
    (hfew : s.model.completedCount < s.model.totalCount)
    (hfull : t.model.completedCount = t.model.totalCount) :
    t.settlements ≠ s.settlements ∧ ∀ h raises, e ≠ .cancel h raises := by
  have hkeep (hm : t.model.completedCount = s.model.completedCount)
      (ht : t.model.totalCount = s.model.totalCount) : False := by
    rw [hm, ht] at hfull
    exact Nat.ne_of_lt hfew hfull
  cases h with
  | quiet | table | routed | handled | declined | skipped | announced | finished | crashed | cancelled =>
    exact (hkeep rfl rfl).elim
  | run hx hi hp ht =>
    obtain ⟨life, ms, -, rfl⟩ := fanOut_eq ht
    rw [runsPending, hx, Option.all_some, hp] at hok
    have hzero := (hs.pending (by simpa using hok)).2.1
    have hlen := List.length_pos_iff.mpr hi
    have hfull : s.model.completedCount = _ := hfull
    exact absurd (hzero.symm.trans hfull) (Nat.ne_of_lt hlen)
  | @counted k r hr hp hc hnew hopen =>
    have hterm : ¬ s.model.status.Terminal := by
      rintro (hst | hst | hst)
      · exact absurd (hs.full (.inl hst)) (Nat.not_le_of_lt hfew)
      · exact absurd (hs.full (.inr hst)) (Nat.not_le_of_lt hfew)
      · exact hc hst
    have hrun := hs.running_of_open hb hr hterm
    have hfull : s.model.completedCount + 1 = s.model.totalCount := hfull
    rcases hopen (Nat.le_of_eq hfull.symm) with h | h
    · exact absurd (hs.running hrun).2 h
    · rw [hrun] at h
      exact absurd h (by decide)
  | completed hr hp hc hnew hfull hrow =>
    refine ⟨fun he => ?_, nofun⟩
    have hlen := congrArg List.length he
    rw [ParallelState.setRouting, ParallelState.settled, List.length_append] at hlen
    exact absurd hlen (Nat.succ_ne_self _)

/-- The counters add up in every state, a completion counts once, and the one settlement that is
no cancellation carries the outcome the counters say. Where the workflow was run when pending,
cancelling ends the counting, and a settlement by completion is the moment the count is full. -/
theorem completions_conserved (h : (parallelSystem defaults limit).Reach s) :
    (s.model.completedCount = s.model.successCount + s.model.failureCount ∧
      s.model.completedCount = s.counted.length ∧ s.counted.Nodup ∧
      (∀ p ∈ s.counted, p.1 ∈ s.members) ∧ s.settlements.length ≤ 1) ∧
    (∀ k r env t, s.routings[k]? = some r → (r.task, r.attempt) ∈ s.counted →
      s.step defaults limit env (.increment k) = some t →
      t = s.setRouting k { r with phase := .returned }) ∧
    (∀ e env t, s.step defaults limit env e = some t → t.settlements ≠ s.settlements →
      (∀ h raises, e ≠ .cancel h raises) → t.settlements = [t.model.status] ∧
        (t.model.status = .succeeded ↔ t.model.failureCount = 0) ∧
        (t.model.status = .failed ↔ t.model.failureCount ≠ 0)) ∧
    ((parallelSystem defaults limit).ReachWhen (fun s e => s.runsPending e.1 = true) s →
      (s.model.status = .cancelled → ∀ t,
        (parallelSystem defaults limit).Path (fun s e => s.runsPending e.1 = true) s t →
        t.model = s.model ∧ t.counted = s.counted ∧ t.settlements = s.settlements) ∧
      (∀ e env t, s.runsPending e = true → s.step defaults limit env e = some t →
        ((t.settlements ≠ s.settlements ∧ ∀ h raises, e ≠ .cancel h raises) ↔
          (s.model.completedCount < s.model.totalCount ∧
            t.model.completedCount = t.model.totalCount)))) := by
  have hcons := reach_conserved h
  have hb := reach_belongs h
  refine ⟨⟨hcons.sum, hcons.count, hcons.nodup, hb.counted, hcons.once⟩, ?_, ?_, fun hw => ⟨?_, ?_⟩⟩
  · intro k r env t hr hm hstep
    simp only [step, hr, Option.bind_some] at hstep
    split at hstep
    · have hskip : s.atomicIncrement r env = (s, none) := by
        unfold atomicIncrement
        split
        · rfl
        · rfl
      rw [hskip] at hstep
      exact (Option.some.inj hstep).symm
    · cases hstep
  · intro e env t hstep hne hcancel
    obtain ⟨u, handles, he, rfl⟩ := step_effect hstep
    obtain ⟨-, -, -, -, -, hset⟩ := settles_effect he hcons hne hcancel
    exact hset
  · intro hc t hp
    induction hp with
    | refl => exact ⟨rfl, rfl, rfl⟩
    | step _ hok hstep ih =>
      obtain ⟨hm, hn, hset⟩ := ih
      obtain ⟨u, handles, he, rfl⟩ := step_effect hstep
      obtain ⟨hm', hn', hset'⟩ := cancelled_effect he hok (hm ▸ hc)
      exact ⟨hm'.trans hm, hn'.trans hn, hset'.trans hset⟩
  · intro e env t hok hstep
    obtain ⟨u, handles, he, rfl⟩ := step_effect hstep
    have hf := reach_filling hw
    constructor
    · rintro ⟨hne, hcancel⟩
      obtain ⟨⟨k, r, rfl, hr⟩, hterm, htot, hcomp, hfull, -⟩ := settles_effect he hcons hne hcancel
      have hrun := hf.running_of_open hb hr hterm
      have hfew := (hf.running hrun).1
      refine ⟨hfew, Nat.le_antisymm ?_ hfull⟩
      show u.model.completedCount ≤ u.model.totalCount
      rw [hcomp, htot]
      exact hfew
    · rintro ⟨hfew, hfull⟩
      have hfill := fills_effect he hb hf hok hfew hfull
      exact hfill

end

def clock (now : Time) (e : ParallelEvent) : ParallelEvent × Env := (e, { now })

def created : ParallelState := { model := { id := 0, kind := .batch } }

theorem created_init (defaults : RetryDefaults) (limit : Nat) :
    (parallelSystem defaults limit).init created :=
  ⟨{ id := 0, kind := .batch }, rfl, rfl, rfl, rfl, rfl, rfl, rfl⟩

/-- Two members are created; the first succeeds and is counted. -/
def firstCounted : List (ParallelEvent × Env) := [
  clock 1 (.load [{ func := "f" }, { func := "g" }]),
  clock 1 (.run 0 none),
  clock 2 (.table (.saveResult { id := 2, success := true, stopped := 2 })),
  clock 2 (.table (.handleResult 0)),
  clock 3 (.route 0),
  clock 3 (.handle 0),
  clock 3 (.increment 0)]

/-- The second fails, and both completions are handed over again. -/
def secondFails : List (ParallelEvent × Env) := [
  clock 4 (.table (.saveResult { id := 5, success := false, stopped := 4 })),
  clock 4 (.table (.handleResult 1)),
  clock 5 (.route 0),
  clock 5 (.route 1),
  clock 5 (.handle 1),
  clock 5 (.handle 2)]

theorem completions_conserved_replayed : ∃ s : ParallelState,
    (parallelSystem {} 1).ReachWhen (fun s e => s.runsPending e.1 = true) s ∧
    s.model.completedCount = s.model.successCount + s.model.failureCount ∧ s.counted.length = 1 ∧
    (∃ t, s.step {} 1 { now := 6 } (.increment 1) = some t ∧ t.counted = s.counted) ∧
    ∃ t, s.step {} 1 { now := 6 } (.increment 2) = some t ∧ t.settlements = [.failed] ∧
      t.model.completedCount = t.model.totalCount := by
  obtain ⟨s, hr, hp⟩ := StepSystem.exists_reach_of_run
    ((parallelSystem {} 1).guard fun s e => s.runsPending e.1 = true)
    (firstCounted ++ secondFails) (.init (created_init {} 1))
    (fun s => s.counted.length = 1 ∧
      ((s.step {} 1 { now := 6 } (.increment 1)).any fun t => s.routings[1]?.any fun r =>
        (r.task, r.attempt) ∈ s.counted ∧ t.counted = s.counted) ∧
      (s.step {} 1 { now := 6 } (.increment 2)).any fun t =>
        t.settlements ≠ s.settlements ∧ t.model.status = .failed) (by decide)
  obtain ⟨hlen, hdup, hset⟩ := of_decide_eq_true hp
  have hw := StepSystem.reachWhen_of_guard hr
  obtain ⟨⟨hsum, -⟩, hagain, hsettles, hpending⟩ := completions_conserved hw.reach
  obtain ⟨t, ht, hdup⟩ := (Option.any_eq_true _ _).mp hdup
  obtain ⟨r, hr', hdup⟩ := (Option.any_eq_true _ _).mp hdup
  obtain ⟨u, hu, hset⟩ := (Option.any_eq_true _ _).mp hset
  obtain ⟨hne, hfailed⟩ := of_decide_eq_true hset
  refine ⟨s, hw, hsum, hlen, ⟨t, ht, ?_⟩, u, hu, ?_, ?_⟩
  · rw [hagain 1 r _ t hr' (of_decide_eq_true hdup).1 ht]
    rfl
  · rw [(hsettles _ _ u hu hne nofun).1, hfailed]
  · exact (((hpending hw).2 _ _ u rfl hu).mp ⟨hne, nofun⟩).2

end ParallelState
end Qraft
