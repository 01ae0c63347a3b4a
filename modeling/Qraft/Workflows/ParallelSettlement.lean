import Mathlib.Data.List.Perm.Subperm
import Qraft.Lifecycle.Members
import Qraft.Workflows.ParallelCounts

/-! An iter or batch settles when all its members are done, as long as none of them is requeued
or reaped on a superseded read. -/
namespace Qraft.ParallelState
open Lifecycle

/-- What leaves the members of a workflow in order until it is cancelled: `run` finds the row
pending, no member is requeued, and none is reaped on a superseded read. -/
def sparesMembers (s : ParallelState) : ParallelEvent → Bool
  | .run h raises => s.runsPending (.run h raises)
  | .table e => s.model.status = .cancelled || s.life.orderlyFor s.isMember e
  | _ => true

/-- What is known of the members, of the completions in flight and of those counted. -/
structure Settling (s : ParallelState) : Prop where
  size : s.members.length = s.model.totalCount
  nodup : s.members.Nodup
  fresh : ∀ m ∈ s.members, m < s.life.store.nextId
  once : (s.counted.map fun p => p.1).Nodup
  firm : s.model.status ≠ .cancelled → ∀ m ∈ s.members, ∃ t, s.life.store.task? m = some t ∧ Firm s.life t
  routed : s.model.status ≠ .cancelled → ∀ r ∈ s.routings,
    ∃ t, s.life.store.task? r.task = some t ∧ DecidedBy t r.attempt r.success
  counted : s.model.status ≠ .cancelled → ∀ p ∈ s.counted,
    ∃ t success, s.life.store.task? p.1 = some t ∧ DecidedBy t p.2 success

section
variable {defaults : RetryDefaults} {limit : Nat} {s t : ParallelState} {env : Env} {e : ParallelEvent}

namespace Settling

/-- The table takes a step that leaves the members in order. -/
theorem life (h : s.Settling) (hb : s.Belongs) (hd : s.life.store.Distinct) {e : LifecycleEvent}
    {life : Lifecycle} (hstep : s.life.step limit env e = some life)
    (hok : s.model.status = .cancelled ∨ s.life.orderlyFor s.isMember e = true) :
    { s with life }.Settling := by
  have hnext (hc : s.model.status ≠ .cancelled) {m : TaskId} (hm : m ∈ s.members) {t : QraftTask}
      (ht : s.life.store.task? m = some t) : ∃ t', life.store.task? m = some t' ∧ Firm life t' ∧
        t.Coherent ∧ QraftTask.Next false s.life.store.nextId t t' := by
    obtain ⟨u, hu, hf⟩ := h.firm hc m hm
    obtain rfl := Option.some.inj (ht.symm.trans hu)
    obtain ⟨t', ht', hf', hn⟩ := hf.next hd hstep ht (p := s.isMember) (decide_eq_true hm)
      (hok.resolve_left hc)
    exact ⟨t', ht', hf', hf.coherent, hn⟩
  refine ⟨h.size, h.nodup, ?_, h.once, ?_, ?_, ?_⟩
  · exact fun m hm => Nat.lt_of_lt_of_le (h.fresh m hm) (step_nextId hstep)
  · intro hc m hm
    obtain ⟨t, ht, -⟩ := h.firm hc m hm
    obtain ⟨t', ht', hf', -⟩ := hnext hc hm ht
    exact ⟨t', ht', hf'⟩
  · intro hc r hr
    obtain ⟨t, ht, hdec⟩ := h.routed hc r hr
    obtain ⟨t', ht', -, hco, hn⟩ := hnext hc (hb.routed r hr) ht
    exact ⟨t', ht', hdec.next hco hn⟩
  · intro hc p hp
    obtain ⟨t, success, ht, hdec⟩ := h.counted hc p hp
    obtain ⟨t', ht', -, hco, hn⟩ := hnext hc (hb.counted p hp) ht
    exact ⟨t', success, ht', hdec.next hco hn⟩

theorem setRouting (h : s.Settling) {k : Nat} {r : ParallelRouting} (hr : s.routings[k]? = some r)
    (phase : ParallelPhase) : (s.setRouting k { r with phase }).Settling := by
  refine ⟨h.size, h.nodup, h.fresh, h.once, h.firm, ?_, h.counted⟩
  intro hc x hx
  rcases List.mem_or_eq_of_mem_set hx with hx | rfl
  · exact h.routed hc x hx
  · exact h.routed hc r (List.mem_of_getElem? hr)

theorem endRouting (h : s.Settling) (k : Nat) : (s.endRouting k).Settling :=
  ⟨h.size, h.nodup, h.fresh, h.once, h.firm,
    fun hc x hx => h.routed hc x (List.mem_of_mem_eraseIdx hx), h.counted⟩

/-- A member is counted for the one attempt that decided it. -/
theorem counting (h : s.Settling) (env : Env) (hb : s.Belongs) (hc : s.model.status ≠ .cancelled) {k : Nat}
    {r : ParallelRouting} (hr : s.routings[k]? = some r) (hnew : (r.task, r.attempt) ∉ s.counted) :
    (s.counting r env).Settling := by
  obtain ⟨t, ht, hdec⟩ := h.routed hc r (List.mem_of_getElem? hr)
  refine ⟨h.size, h.nodup, h.fresh, ?_, h.firm, h.routed, ?_⟩
  · have hout : r.task ∉ s.counted.map fun p => p.1 := by
      intro hm
      obtain ⟨⟨m, a⟩, hp, he⟩ := List.mem_map.mp hm
      have he : m = r.task := he
      subst he
      obtain ⟨u, success, hu, hdec'⟩ := h.counted hc _ hp
      obtain rfl := Option.some.inj (ht.symm.trans hu)
      obtain ⟨v, hv, hf⟩ := h.firm hc _ (hb.counted _ hp)
      obtain rfl := Option.some.inj (ht.symm.trans hv)
      rw [(hdec.unique hdec' hf.coherent).1] at hnew
      exact hnew hp
    rw [ParallelState.counting, List.map_append]
    exact List.nodup_append'.mpr ⟨h.once, List.nodup_singleton _, by simpa using hout⟩
  · intro _ p hp
    rcases List.mem_append.mp hp with hp | hp
    · exact h.counted hc p hp
    · rw [List.mem_singleton.mp hp]
      exact ⟨t, r.success, ht, hdec⟩

/-- The members a fan-out creates. -/
theorem fanOut {n : Nat} {items : List ParallelItem} (hnil : s.members = [])
    (hl : (lifecycleSystem limit).Reach s.life)
    (ht : items.foldlM (addMember defaults env) (s.started n env) = .ok t) :
    t.members.Nodup ∧ ∀ m ∈ t.members, m < t.life.store.nextId ∧
      ∃ u, t.life.store.task? m = some u ∧ Firm t.life u := by
  have hinv : (lifecycleSystem limit).Reach t.life ∧ t.members.Nodup ∧ ∀ m ∈ t.members,
      m < t.life.store.nextId ∧ ∃ u, t.life.store.task? m = some u ∧ Firm t.life u := by
    apply fanOut_induct (fun t => (lifecycleSystem limit).Reach t.life ∧ t.members.Nodup ∧
      ∀ m ∈ t.members, m < t.life.store.nextId ∧
        ∃ u, t.life.store.task? m = some u ∧ Firm t.life u) _ _ ht
    · rintro t metadata cluster ⟨hl, hn, hm⟩
      have hstep := step_asyncTask limit t.life metadata cluster env
      have hd := reach_distinct hl
      have hle := step_nextId hstep
      refine ⟨.step (e := (.asyncTask metadata cluster none, env)) hl trivial hstep, ?_, ?_⟩
      · have hout : t.life.store.nextId ∉ t.members := fun hin => Nat.lt_irrefl _ (hm _ hin).1
        exact List.nodup_append'.mpr ⟨hn, List.nodup_singleton _, by simpa using hout⟩
      · intro m hin
        rcases List.mem_append.mp hin with hin | hin
        · obtain ⟨hlt, u, hu, hf⟩ := hm m hin
          obtain ⟨u', hu', hf', -⟩ := hf.next hd hstep hu (p := fun _ => true) rfl rfl
          exact ⟨Nat.lt_of_lt_of_le hlt hle, u', hu', hf'⟩
        · rw [List.mem_singleton.mp hin]
          exact ⟨Nat.lt_add_of_pos_right (by decide), firm_created (reach_known hl) hd metadata cluster env⟩
    · have hm : (s.started n env).members = [] := hnil
      rw [hm]
      exact ⟨hl, List.nodup_nil, fun m hin => absurd hin List.not_mem_nil⟩
  exact hinv.2

end Settling

private theorem settling_effect (h : ParallelEffect defaults limit s env e t)
    (hl : (lifecycleSystem limit).Reach s.life) (hb : s.Belongs) (hf : s.Filling) (hs : s.Settling)
    (hok : s.sparesMembers e = true) : t.Settling := by
  have hd := reach_distinct hl
  cases h with
  | quiet => exact hs
  | table hfor h =>
    apply hs.life hb hd h
    rw [sparesMembers, Bool.or_eq_true, decide_eq_true_eq] at hok
    exact hok
  | @run h raises x t hx hi hp ht =>
    have hpend : s.model.status = .pending := by
      rw [sparesMembers, runsPending, hx, Option.all_some, hp] at hok
      simpa using hok
    obtain ⟨hnil, -, -⟩ := hf.pending hpend
    obtain ⟨hn, hm⟩ := Settling.fanOut hnil hl ht
    obtain ⟨life, ms, hlen, rfl⟩ := fanOut_eq ht
    have hrout : ∀ r ∈ s.routings, False := by
      intro r hr
      have hr := hb.routed r hr
      rw [hnil] at hr
      exact absurd hr List.not_mem_nil
    have hcount : s.counted = [] := by
      apply List.eq_nil_iff_forall_not_mem.mpr
      intro p hp
      have hp := hb.counted p hp
      rw [hnil] at hp
      exact absurd hp List.not_mem_nil
    refine ⟨?_, hn, fun m hin => (hm m hin).1, ?_, fun _ m hin => (hm m hin).2, ?_, ?_⟩
    · have hmem : (s.started x.items.length env).members = [] := hnil
      rw [hmem, List.nil_append]
      exact hlen
    · have hcount : (s.started x.items.length env).counted = [] := hcount
      rw [hcount]
      exact List.nodup_nil
    · exact fun _ r hr => (hrout r hr).elim
    · intro _ p hp
      have hp : p ∈ s.counted := hp
      rw [hcount] at hp
      exact absurd hp List.not_mem_nil
  | cancelled hrow =>
    obtain ⟨-, -, rfl⟩ := WorkflowRow.cancel_eq_some hrow
    refine ⟨hs.size, hs.nodup, hs.fresh, hs.once, ?_, ?_, ?_⟩
    · exact fun hc => absurd rfl hc
    · exact fun hc => absurd rfl hc
    · exact fun hc => absurd rfl hc
  | routed hdue ha hsome hm =>
    refine ⟨hs.size, hs.nodup, hs.fresh, hs.once, hs.firm, ?_, hs.counted⟩
    intro hc r hr
    rcases List.mem_append.mp hr with hr | hr
    · exact hs.routed hc r hr
    · rw [List.mem_singleton.mp hr]
      obtain ⟨u, hu, hfirm⟩ := hs.firm hc _ hm
      obtain ⟨ham, haid⟩ := Rows.get?_eq_some ha
      refine ⟨u, hu, ?_⟩
      exact hfirm.due _ (List.mem_of_getElem? hdue) (TaskStore.task?_eq_some hu).2.symm _ ham haid _ hsome
  | handled hr | declined hr | skipped hr => exact hs.setRouting hr _
  | counted hr hp hc hnew => exact (hs.counting env hb hc hr hnew).setRouting hr _
  | @completed k r row hr hp hc hnew hfull hrow =>
    have h := (hs.counting env hb hc hr hnew).setRouting hr
      (.announcing ((s.counting r env).model.withRow row) s.settlements.length)
    exact ⟨h.size, h.nodup, h.fresh, h.once, fun _ => h.firm hc, fun _ => h.routed hc,
      fun _ => h.counted hc⟩
  | announced hr hp =>
    have h := hs.setRouting hr .returned
    exact ⟨h.size, h.nodup, h.fresh, h.once, h.firm, h.routed, h.counted⟩
  | @finished k i r held life hr hp hdue ht h =>
    exact (hs.endRouting k).life (hb.endRouting k) hd h (.inr rfl)
  | crashed => exact hs.endRouting _

theorem sparesMembers_runsPending (h : s.sparesMembers e = true) : s.runsPending e = true := by
  cases e with
  | run h raises => exact h
  | _ => rfl

theorem reach_settling
    (h : (parallelSystem defaults limit).ReachWhen (fun s e => s.sparesMembers e.1 = true) s) :
    s.Settling := by
  apply StepSystem.ReachWhen.invariant_of
    (fun s => (lifecycleSystem limit).Reach s.life ∧ s.Belongs ∧ s.Filling) Settling _ _ _ h
  · intro s hs
    exact ⟨reach_life hs, reach_belongs hs.reach, reach_filling (hs.mono fun _ _ => sparesMembers_runsPending)⟩
  · rintro s ⟨model, -, -, htot, -, -, -, rfl⟩
    have hnone {α : Type} {x : α} {P : Prop} (hx : x ∈ ([] : List α)) : P := absurd hx List.not_mem_nil
    exact ⟨htot.symm, List.nodup_nil, fun _ => hnone, List.nodup_nil, fun _ _ => hnone,
      fun _ _ => hnone, fun _ _ => hnone⟩
  · rintro s ⟨e, env⟩ s' ⟨hl, hb, hf⟩ ih hok hstep
    obtain ⟨t, handles, he, rfl⟩ := step_effect hstep
    have ht := settling_effect he hl hb hf ih hok
    exact ⟨ht.size, ht.nodup, ht.fresh, ht.once, ht.firm, ht.routed, ht.counted⟩

/-- As long as no member is requeued, or reaped on a superseded read, each member is counted at
most once, and when the workflow settles by completion all members are done. -/
theorem settles_when_done
    (h : (parallelSystem defaults limit).ReachWhen (fun s e => s.sparesMembers e.1 = true) s) :
    s.model.completedCount ≤ s.model.totalCount ∧
    (∀ m, s.counted.countP (fun p => p.1 = m) ≤ 1) ∧
    (s.model.status = .succeeded ∨ s.model.status = .failed → ∀ m ∈ s.members,
      ∃ t, s.life.store.task? m = some t ∧ t.status.Terminal) := by
  have hs := reach_settling h
  have hcons := reach_conserved h.reach
  have hb := reach_belongs h.reach
  have hfill := reach_filling (h.mono fun _ _ => sparesMembers_runsPending)
  have hsub : (s.counted.map fun p => p.1) ⊆ s.members := by
    intro m hm
    obtain ⟨p, hp, rfl⟩ := List.mem_map.mp hm
    exact hb.counted p hp
  have hperm := hs.once.subperm hsub
  have hle : s.model.completedCount ≤ s.model.totalCount := by
    rw [hcons.count, ← hs.size, ← List.length_map (fun p : TaskId × AttemptId => p.1)]
    exact hperm.length_le
  refine ⟨hle, ?_, ?_⟩
  · intro m
    have hone := List.nodup_iff_count_le_one.mp hs.once m
    rw [List.count, List.countP_map] at hone
    exact hone
  · intro hst m hm
    have hc : s.model.status ≠ .cancelled := by
      rcases hst with hst | hst
      · rw [hst]
        decide
      · rw [hst]
        decide
    -- The count is full, so every member was counted.
    have hall := hperm.perm_of_length_le (by
      rw [List.length_map, ← hcons.count, hs.size]
      exact hfill.full hst)
    obtain ⟨p, hp, rfl⟩ := List.mem_map.mp (hall.mem_iff.mpr hm)
    obtain ⟨t, success, ht, hdec⟩ := hs.counted hc p hp
    obtain ⟨u, hu, hfirm⟩ := hs.firm hc _ hm
    obtain rfl := Option.some.inj (ht.symm.trans hu)
    exact ⟨t, ht, hdec.terminal hfirm.coherent⟩

end

def bothCounted : List (ParallelEvent × Env) := firstCounted ++ [
  clock 4 (.table (.saveResult { id := 5, success := false, stopped := 4 })),
  clock 4 (.table (.handleResult 1)),
  clock 5 (.route 1),
  clock 5 (.handle 1),
  clock 5 (.increment 1)]

theorem settles_when_done_counted : ∃ s : ParallelState,
    (parallelSystem {} 1).ReachWhen (fun s e => s.sparesMembers e.1 = true) s ∧
    s.model.status = .failed ∧ s.members.length = 2 ∧
    ∀ m ∈ s.members, ∃ t, s.life.store.task? m = some t ∧ t.status.Terminal := by
  obtain ⟨s, hr, hp⟩ := StepSystem.exists_reach_of_run
    ((parallelSystem {} 1).guard fun s e => s.sparesMembers e.1 = true)
    bothCounted (.init (created_init {} 1))
    (fun s => s.model.status = .failed ∧ s.members.length = 2) (by decide)
  obtain ⟨hst, hlen⟩ := of_decide_eq_true hp
  have hr := StepSystem.reachWhen_of_guard hr
  exact ⟨s, hr, hst, hlen, (settles_when_done hr).2.2 (.inr hst)⟩

/-- The first of two members fails and is counted; requeued, it fails and is counted again. -/
def countedTwice : List (ParallelEvent × Env) := [
  clock 1 (.load [{ func := "f" }, { func := "g" }]),
  clock 1 (.run 0 none),
  clock 2 (.table (.saveResult { id := 2, success := false, stopped := 2 })),
  clock 2 (.table (.handleResult 0)),
  clock 3 (.route 0),
  clock 3 (.handle 0),
  clock 3 (.increment 0),
  clock 3 (.finish 0 0),
  clock 4 (.table (.loadInstance 0)),
  clock 4 (.table (.requeueCheck 0)),
  clock 4 (.table (.requeueCommit 0)),
  clock 5 (.table (.claimAndEnqueue 0 8 5)),
  clock 6 (.table (.saveResult { id := 9, success := false, stopped := 6 })),
  clock 6 (.table (.handleResult 1)),
  clock 7 (.route 0),
  clock 7 (.handle 0),
  clock 7 (.increment 0)]

/-- A requeued member settles the workflow in another's place, which is counted beyond the total. -/
theorem settled_early :
    (∃ s : ParallelState, (parallelSystem {} 1).Reach s ∧ s.model.status = .failed ∧
      ∃ m ∈ s.members, ∃ t, s.life.store.task? m = some t ∧ t.status = .running) ∧
    ∃ s : ParallelState, (parallelSystem {} 1).Reach s ∧ s.model.totalCount < s.model.completedCount := by
  constructor
  · obtain ⟨s, hr, hp⟩ := StepSystem.exists_reach_of_run (parallelSystem {} 1)
      countedTwice (.init (created_init {} 1))
      (fun s => s.model.status = .failed ∧ s.members.any fun m =>
        (s.life.store.task? m).any fun t => t.status = .running) (by decide)
    obtain ⟨hst, hp⟩ := of_decide_eq_true hp
    obtain ⟨m, hm, hp⟩ := List.any_eq_true.mp hp
    obtain ⟨t, ht, hp⟩ := (Option.any_eq_true _ _).mp hp
    exact ⟨s, hr, hst, m, hm, t, ht, of_decide_eq_true hp⟩
  · obtain ⟨s, hr, hp⟩ := StepSystem.exists_reach_of_run (parallelSystem {} 1)
      (countedTwice ++ [
        clock 8 (.table (.saveResult { id := 5, success := true, stopped := 8 })),
        clock 8 (.table (.handleResult 2)),
        clock 9 (.route 1),
        clock 9 (.handle 1),
        clock 9 (.increment 1)]) (.init (created_init {} 1))
      (fun s => s.model.totalCount < s.model.completedCount) (by decide)
    exact ⟨s, hr, of_decide_eq_true hp⟩

end Qraft.ParallelState
