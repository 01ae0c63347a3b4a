import Qraft.Lifecycle.Members

/-! A choice of tasks that nobody requeues or reaps on a superseded read: they are firm, and what a
process holds of one is what was decided of it. -/
namespace Qraft
open QraftTask

namespace Lifecycle

/-- The tasks chosen are firm, and held as they were decided. -/
structure Orderly (p : TaskId → Bool) (l : Lifecycle) : Prop where
  firm : ∀ t ∈ l.store.tasks, p t.id = true → Firm l t
  due : ∀ x ∈ l.due, p x.1.id = true → ∀ t, l.store.task? x.1.id = some t →
    ∃ v, x.1.status.verdict = some v ∧ DecidedBy t x.2 v

/-- A step leaves in order what is chosen after it, if that was there before it. -/
def KeepsOrder (l : Lifecycle) (e : LifecycleEvent) (p p' : TaskId → Bool) : Prop :=
  ∀ i t, l.store.task? i = some t → p' i = true →
    p i = true ∧ l.orderlyFor (fun j => decide (j = i)) e = true

section
variable {limit : Nat} {l l' : Lifecycle} {env : Env} {e : LifecycleEvent} {p p' : TaskId → Bool}
  {t : QraftTask}

theorem orderlyFor_single {i : TaskId} (h : l.orderlyFor p e = true) (hp : p i = true) :
    l.orderlyFor (fun j => decide (j = i)) e = true := by
  cases e with
  | requeueCommit k =>
    simp only [orderlyFor, Option.all_eq_true, Bool.not_eq_true'] at h ⊢
    intro r hr
    refine decide_eq_false fun he => ?_
    have hno := h r hr
    rw [he, hp] at hno
    cases hno
  | reap k =>
    simp only [orderlyFor, Option.all_eq_true, Bool.or_eq_true, Bool.not_eq_true'] at h ⊢
    intro rd hrd
    rcases h rd hrd with hno | hord
    · refine .inl (decide_eq_false fun he => ?_)
      rw [he, hp] at hno
      cases hno
    · exact .inr hord
  | _ => rfl

/-- Once a task is decided, so are all of its attempts. -/
theorem DecidedBy.all {attempt : AttemptId} {success : Bool} (h : DecidedBy t attempt success)
    (hc : t.Coherent) : ∀ a ∈ t.attempts, a.success ≠ none := by
  intro a ha hnone
  have hv := h.verdict hc
  rw [(hc.undecided ha hnone).1] at hv
  cases hv

/-- A task with an undecided attempt only, under an id nobody holds. -/
private theorem firm_new (hk : l.Known) (hc : t.Coherent) (hid : t.id = l.store.nextId)
    (hnone : ∀ a ∈ t.attempts, a.success = none) (hreads : l'.reads = l.reads) (hdue : l'.due = l.due) :
    Firm l' t := by
  refine ⟨hc, ?_, ?_, ?_⟩
  · intro a ha hdec
    exact absurd (hnone a ha) hdec
  · intro rd hrd he
    rw [hreads] at hrd
    exact absurd (he.trans hid) (Nat.ne_of_lt (hk.reads rd hrd).1)
  · intro x hx he
    rw [hdue] at hx
    exact absurd (he.trans hid) (Nat.ne_of_lt (hk.due x hx).1)

/-- A resolution that leaves a task due decides the attempt it is due for. -/
theorem decided_resolved {t t' : QraftTask} {id newId : AttemptId} {number : Nat} {now : Time}
    (hres : Resolved t id number newId now t' .due) (hmem : ∃ a ∈ t.attempts, a.id = id) :
    ∃ b ∈ t'.attempts, b.id = id ∧ ∃ v, b.success = some v := by
  obtain ⟨f, success, hdec, ⟨-, -, hrows⟩ | ⟨hr, -⟩⟩ := resolved_rows hres
  · obtain ⟨a, ha, haid⟩ := hmem
    refine ⟨f a, ?_, (hdec.id a).trans haid, success, hdec.decided a haid⟩
    rw [hrows]
    exact List.mem_map_of_mem ha
  · cases hr

namespace Orderly

private theorem firm_step (h : l.Orderly p) (hd : l.store.Distinct) (hk : l.Known)
    (hstep : l.step limit env e = some l') (hord : l.KeepsOrder e p p') :
    ∀ t' ∈ l'.store.tasks, p' t'.id = true → Firm l' t' := by
  intro t' ht' hp'
  have hd' := (step_rows hd hstep).1
  rcases step_origin hd hstep ht' with ⟨t, ht, heff⟩ | ⟨metadata, cluster, trace, rfl, hnew⟩ |
    ⟨metadata, cluster, rfl, hok⟩
  · obtain ⟨hp, hone⟩ := hord t'.id t ht hp'
    obtain ⟨hmem, hid⟩ := TaskStore.task?_eq_some ht
    obtain ⟨u, hu, hfirm, -⟩ := (h.firm t hmem (hid ▸ hp)).next hd hstep ht (decide_eq_true rfl) hone
    rw [hd'.task?_of_mem ht'] at hu
    rw [Option.some.inj hu]
    exact hfirm
  · cases hstep
    have hc := created_enqueued metadata cluster trace l.store.nextId env
    rw [hnew]
    refine firm_new hk hc.coherent hc.id ?_ rfl rfl
    intro a ha
    rw [List.mem_singleton.mp ha]
  · obtain ⟨hc, -⟩ := created_scheduled rfl rfl hok
    simp only [Lifecycle.step] at hstep
    obtain ⟨u, -, rfl⟩ := Option.map_eq_some_iff.mp hstep
    refine firm_new hk hc.coherent hc.id ?_ rfl rfl
    obtain ⟨-, a, -, -, -, hnone, -, -, rfl⟩ := scheduleAttempt_ok hok
    intro b hb
    rw [List.mem_singleton.mp hb]
    exact hnone

theorem step (h : l.Orderly p) (hd : l.store.Distinct) (hk : l.Known)
    (hstep : l.step limit env e = some l') (hord : l.KeepsOrder e p p') : l'.Orderly p' := by
  have hfirm := h.firm_step hd hk hstep hord
  refine ⟨hfirm, ?_⟩
  intro x hx hp' t' ht'
  obtain ⟨hmem', hid'⟩ := TaskStore.task?_eq_some ht'
  rcases step_due hd hstep hx with hold | ⟨a, hfind, hsame, ha, haid, hdec, hflag⟩ |
    ⟨t, number, hfind, hfind', hm, hres, hwho⟩
  · rcases step_origin hd hstep hmem' with ⟨t, ht, heff⟩ | ⟨metadata, cluster, trace, -, hnew⟩ |
      ⟨metadata, cluster, -, hok⟩
    · rw [hid'] at ht
      obtain ⟨hp, hone⟩ := hord x.1.id t ht hp'
      obtain ⟨hmem, hid⟩ := TaskStore.task?_eq_some ht
      have hft := h.firm t hmem (hid ▸ hp)
      obtain ⟨u, hu, -, hn⟩ := hft.next hd hstep ht (decide_eq_true rfl) hone
      obtain rfl := Option.some.inj (ht'.symm.trans hu)
      obtain ⟨v, hv, hby⟩ := h.due x hold hp t ht
      exact ⟨v, hv, hby.next hft.coherent hn⟩
    · rw [hnew] at hid'
      exact absurd hid'.symm (Nat.ne_of_lt (hk.due x hold).1)
    · obtain ⟨hc, -⟩ := created_scheduled rfl rfl hok
      exact absurd (hid'.symm.trans hc.id) (Nat.ne_of_lt (hk.due x hold).1)
  · rw [hsame] at ht'
    obtain rfl := Option.some.inj (hfind.symm.trans ht')
    obtain ⟨v, hv⟩ := Option.ne_none_iff_exists'.mp hdec
    have hft := h.firm x.1 (TaskStore.task?_eq_some ht').1 (hord x.1.id x.1 ht' hp').1
    have hlast : a.attemptNumber = x.1.attempts.length := by
      by_contra hne
      have hlt := Nat.lt_of_le_of_ne (hft.coherent.number_bounds ha).2 hne
      rw [hft.routed a ha hdec hlt] at hflag
      cases hflag
    have hby : DecidedBy x.1 x.2 v := ⟨a, ha, haid, hlast, hv⟩
    exact ⟨v, hby.verdict hft.coherent, hby⟩
  · obtain rfl := Option.some.inj (hfind'.symm.trans ht')
    have hft' := hfirm x.1 hmem' hp'
    have hmem : ∃ a ∈ t.attempts, a.id = x.2 := by
      rcases hwho with ⟨a, ha, haid, -⟩ | ⟨i, rd, -, hrd, hrow, -, hrid⟩
      · exact ⟨a, ha, haid⟩
      · obtain ⟨hmem, hid⟩ := TaskStore.task?_eq_some hfind
        have hp := (hord x.1.id t hfind hp').1
        have hread := (TaskStore.task?_eq_some hrow).2
        obtain ⟨a, ha, haid, -⟩ :=
          (h.firm t hmem (hid ▸ hp)).reads rd (List.mem_of_getElem? hrd) hread.symm
        exact ⟨a, ha, haid.trans hrid⟩
    obtain ⟨b, hb, hbid, v, hv⟩ := decided_resolved hres hmem
    have hby := hft'.due x hx rfl b hb hbid v hv
    exact ⟨v, hby.verdict hft'.coherent, hby⟩

/-- Only the table, the reads and what is due matter. -/
theorem congr (h : l.Orderly p) (hs : l'.store = l.store) (hr : l'.reads = l.reads)
    (hd : l'.due = l.due) : l'.Orderly p := by
  refine ⟨?_, ?_⟩
  · intro t ht hp
    rw [hs] at ht
    obtain ⟨hc, hrouted, hreads, hdue⟩ := h.firm t ht hp
    exact ⟨hc, hrouted, hr ▸ hreads, hd ▸ hdue⟩
  · rw [hs, hd]
    exact h.due

end Orderly

end
end Lifecycle
end Qraft
