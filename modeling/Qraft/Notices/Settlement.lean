import Qraft.Notices.Effects

/-! How a task is settled, and who hears of it: every path announces a resolution once and calls the
hook of the outcome once, save the recovery of an attempt that had published. -/
namespace Qraft
open QraftTask

namespace Lifecycle
variable {limit : Nat} {l l' : Lifecycle} {env : Env} {e : LifecycleEvent} {i : TaskId}
  {attempt : AttemptId} {v : Bool}

/-- The row of an attempt has this outcome. -/
def Outcome (l : Lifecycle) (i : TaskId) (attempt : AttemptId) (v : Bool) : Prop :=
  ∃ t ∈ l.store.tasks, t.id = i ∧ ∃ a ∈ t.attempts, a.id = attempt ∧ a.success = some v

/-- The latest attempt of a task has it. -/
def Final (l : Lifecycle) (i : TaskId) (attempt : AttemptId) (v : Bool) : Prop :=
  ∃ t, l.store.task? i = some t ∧ DecidedBy t attempt v

theorem Outcome.eq (h : l.Outcome i attempt v) (hd : l.store.Distinct) {t : QraftTask}
    {a : QraftTaskAttempt} (ht : t ∈ l.store.tasks) (ha : a ∈ t.attempts) (hid : a.id = attempt) :
    t.id = i ∧ a.success = some v := by
  obtain ⟨u, hu, hui, b, hb, hbid, hs⟩ := h
  obtain ⟨rfl, rfl⟩ := hd.eq_of_id hu hb ht ha (hbid.trans hid.symm)
  exact ⟨hui, hs⟩

theorem Outcome.row (h : l.Outcome i attempt v) : ∃ t ∈ l.store.tasks, t.id = i := by
  obtain ⟨t, ht, hid, -⟩ := h
  exact ⟨t, ht, hid⟩

theorem Outcome.next (h : l.Outcome i attempt v) (hd : l.store.Distinct) (hl : l.Sound)
    (hin : l.inOrder e = true) (hrec : l.recovers e = false) (hstep : l.step limit env e = some l') :
    l'.Outcome i attempt v := by
  obtain ⟨t, ht, rfl, a, ha, rfl, hs⟩ := h
  obtain ⟨t', ht', hid, a', ha', haid, hfate⟩ := attempt_fate hd hl hin hrec hstep ht ha
  cases hfate with
  | kept hsame => exact ⟨t', ht', hid, a', ha', haid, hsame.trans hs⟩
  | decided hnone => cases hnone.symm.trans hs

theorem Final.next {p : TaskId → Bool} (h : l.Final i attempt v) (ho : l.Orderly p)
    (hd : l.store.Distinct) (hp : p i = true) (hord : l.orderlyFor (fun j => decide (j = i)) e = true)
    (hstep : l.step limit env e = some l') : l'.Final i attempt v := by
  obtain ⟨t, ht, hby⟩ := h
  obtain ⟨hmem, hid⟩ := TaskStore.task?_eq_some ht
  have hfirm := ho.firm t hmem (hid ▸ hp)
  obtain ⟨t', ht', -, hn⟩ := hfirm.next hd hstep ht (decide_eq_true rfl) hord
  exact ⟨t', ht', hby.next hfirm.coherent hn⟩

/-- What a task holds of itself is as its row says. -/
theorem heldOutcome_of_mem {x : QraftTask × AttemptId} {a : QraftTaskAttempt}
    (hids : (x.1.attempts.map fun a => a.id).Nodup) (ha : a ∈ x.1.attempts) (hid : a.id = x.2) :
    heldOutcome x = a.success := by
  unfold heldOutcome QraftTask.attempt?
  rw [← hid, Rows.get?_of_mem hids ha]
  rfl

end Lifecycle

namespace Notifying
open Lifecycle
variable {sync : Bool} {limit : Nat} {w w' : Notifying} {env : Env}

/-- What is announced of each attempt, and what was done about it. -/
structure Told (sync : Bool) (w : Notifying) : Prop where
  undecided : ∀ t ∈ w.life.store.tasks, ∀ a ∈ t.attempts, a.success = none →
    a.routed = false ∧ ∀ n ∈ w.announced, n.attempt ≠ a.id
  decided : ∀ t ∈ w.life.store.tasks, ∀ a ∈ t.attempts, ∀ v, a.success = some v →
    ∃ n, w.announced.filter (fun n => n.attempt = a.id) = [n] ∧ n.task = t.id ∧ n.outcome.success = v ∧
      (n.settled = false → a.attemptNumber < t.attempts.length) ∧
      (n.settled = true → a.routed = true → (t.id, a.id, v) ∈ w.served)
  announced : ∀ n ∈ w.announced, w.life.Outcome n.task n.attempt n.outcome.success
  due : ∀ x ∈ w.life.due, ∃ v, heldOutcome x = some v ∧ w.life.Outcome x.1.id x.2 v ∧
    ∀ t ∈ w.life.store.tasks, t.id = x.1.id → SameHooks x.1 t
  served : ∀ i attempt v, (i, attempt, v) ∈ w.served → w.life.Outcome i attempt v ∧
    ∀ t ∈ w.life.store.tasks, t.id = i → t.hooked v = true → (i, v) ∈ w.hooks
  hooks : ∀ i v, (i, v) ∈ w.hooks → (∃ attempt, (i, attempt, v) ∈ w.served) ∧
    ∀ t ∈ w.life.store.tasks, t.id = i → t.hooked v = true
  once : w.hooks.Nodup
  dispatches : sync = false → w.dispatches = w.hooks

/-- What was settled of a task that nobody requeued is final. -/
structure Settled (w : Notifying) : Prop where
  table : w.life.Orderly fun i => decide (i ∉ w.revived)
  announced : ∀ n ∈ w.announced, n.settled = true → n.task ∉ w.revived →
    w.life.Final n.task n.attempt n.outcome.success
  served : ∀ i attempt v, (i, attempt, v) ∈ w.served → i ∉ w.revived → w.life.Final i attempt v

/-- A step of the table, and what its process announces. -/
private def tableStep (w : Notifying) (env : Env) (e : LifecycleEvent) (life : Lifecycle) : Notifying :=
  { w with
    life
    announced := w.announced ++ (w.life.announces env e).toList
    revived := w.revived ++ (w.life.revives e).toList }

section
variable {e : LifecycleEvent} {life : Lifecycle}

/-- The hooks of a task, looked up again after a step. -/
private theorem rows_next {i : TaskId} {P : QraftTask → Prop} (hd : w.life.store.Distinct)
    (hstep : w.life.step limit env e = some life) (hrow : ∃ t ∈ w.life.store.tasks, t.id = i)
    (hP : ∀ t t', SameHooks t t' → P t → P t') (h : ∀ t ∈ w.life.store.tasks, t.id = i → P t) :
    ∀ t' ∈ life.store.tasks, t'.id = i → P t' := by
  intro t' ht' hid
  obtain ⟨t, ht, rfl⟩ := hrow
  exact hP t t' (hooks_kept hd hstep ht ht' hid) (h t ht rfl)

namespace Told

private theorem filter_other {anns : List Announcement} {ann : Option Announcement} {id : AttemptId}
    (h : ∀ n, ann = some n → n.attempt ≠ id) :
    (anns ++ ann.toList).filter (fun n => n.attempt = id) = anns.filter fun n => n.attempt = id := by
  cases ann with
  | none => rw [Option.toList_none, List.append_nil]
  | some n =>
    rw [List.filter_append, Option.toList_some, List.filter_singleton]
    rw [decide_eq_false (h n rfl), Bool.cond_false, List.append_nil]

/-- The due attempts after a step. -/
private theorem due_next (h : w.Told sync) (hd : w.life.store.Distinct) (hl : w.life.Sound)
    (hin : w.life.inOrder e = true) (hrec : w.life.recovers e = false)
    (hstep : w.life.step limit env e = some life) :
    ∀ x ∈ life.due, ∃ v, heldOutcome x = some v ∧ life.Outcome x.1.id x.2 v ∧
      ∀ t ∈ life.store.tasks, t.id = x.1.id → SameHooks x.1 t := by
  have hd' := (step_rows hd hstep).1
  -- A process that takes the row as it is now.
  have taken {x : QraftTask × AttemptId} {a : QraftTaskAttempt} {v : Bool}
      (hrow : life.store.task? x.1.id = some x.1) (ha : a ∈ x.1.attempts) (hid : a.id = x.2)
      (hs : a.success = some v) : ∃ v, heldOutcome x = some v ∧ life.Outcome x.1.id x.2 v ∧
        ∀ t ∈ life.store.tasks, t.id = x.1.id → SameHooks x.1 t := by
    obtain ⟨hmem, -⟩ := TaskStore.task?_eq_some hrow
    refine ⟨v, (heldOutcome_of_mem (hd'.attempts x.1 hmem) ha hid).trans hs,
      ⟨x.1, hmem, rfl, a, ha, hid, hs⟩, ?_⟩
    intro t ht hti
    rw [Rows.eq_of_key_eq hd'.tasks ht hmem hti]
    exact .refl x.1
  intro x hx
  rcases step_due hd hstep hx with hold | ⟨a, hrow, hstore, ha, hid, hdec, -⟩ |
    ⟨t, number, hrow, hrow', -, hres, hwho⟩
  · obtain ⟨v, hv, hout, hrows⟩ := h.due x hold
    refine ⟨v, hv, hout.next hd hl hin hrec hstep, ?_⟩
    apply rows_next hd hstep hout.row _ hrows
    exact fun t t' hs ht => ⟨hs.1.trans ht.1, fun success => (hs.2 success).trans (ht.2 success)⟩
  · obtain ⟨v, hv⟩ := Option.ne_none_iff_exists'.mp hdec
    exact taken (hstore ▸ hrow) ha hid hv
  · have hmem : ∃ a ∈ t.attempts, a.id = x.2 := by
      rcases hwho with ⟨a, ha, hid, -⟩ | ⟨i, rd, -, hrd, htask, -, hid⟩
      · exact ⟨a, ha, hid⟩
      · obtain ⟨u, hu, hui, a, ha, haid, -⟩ := hl.reads rd (List.mem_of_getElem? hrd)
        obtain ⟨ht, hti⟩ := TaskStore.task?_eq_some htask
        obtain rfl := Rows.eq_of_key_eq hd.tasks hu ht (hui.trans hti.symm)
        exact ⟨a, ha, haid.trans hid⟩
    obtain ⟨b, hb, hbid, v, hv⟩ := decided_resolved hres hmem
    exact taken hrow' hb hbid hv

private theorem step_table (h : w.Told sync) (hd : w.life.store.Distinct) (hl : w.life.Sound)
    (hin : w.life.inOrder e = true) (hrec : w.life.recovers e = false)
    (hstep : w.life.step limit env e = some life)
    (hroute : ∀ i held attempt, e = .route i → w.life.due[i]? = some (held, attempt) →
      ∃ v, (held.id, attempt, v) ∈ w.served) : (w.tableStep env e life).Told sync := by
  refine ⟨?_, ?_, ?_, h.due_next hd hl hin hrec hstep, ?_, ?_, h.once, h.dispatches⟩
  · intro t' ht' a' ha' hnone
    cases step_fate hd hl hin hrec hstep ht' ha' with
    | @kept t a ht hhooks ha hi hn hs hlen hr hann =>
      obtain ⟨hrouted, hquiet⟩ := h.undecided t ht a ha (hs.symm.trans hnone)
      refine ⟨?_, ?_⟩
      · rcases hr with hr | ⟨i, held, -, hdue, -⟩
        · exact hr.trans hrouted
        · obtain ⟨v, -, hout, -⟩ := h.due _ (List.mem_of_getElem? hdue)
          cases (hs.symm.trans hnone).symm.trans (hout.eq hd ht ha rfl).2
      · intro n hn
        rw [hi]
        rcases List.mem_append.mp hn with hn | hn
        · exact hquiet n hn
        · exact hann n (Option.mem_toList.mp hn)
    | decided ht hhooks ha hi hn hnone' hann htask hattempt hs => cases hs.symm.trans hnone
    | added hi hs hr =>
      refine ⟨hr, ?_⟩
      have old {t : QraftTask} {a : QraftTaskAttempt} (ht : t ∈ w.life.store.tasks) (ha : a ∈ t.attempts) :
          a.id ≠ a'.id := by
        have hlt := ((hd.bound t ht).2 a ha).1
        exact Nat.ne_of_lt (Nat.lt_of_lt_of_le hlt hi)
      intro n hn
      rcases List.mem_append.mp hn with hn | hn
      · obtain ⟨t, ht, -, a, ha, hid, -⟩ := h.announced n hn
        rw [← hid]
        exact old ht ha
      · obtain ⟨t, ht, a, ha, hid⟩ := announces_row hl (Option.mem_toList.mp hn)
        rw [← hid]
        exact old ht ha
  · intro t' ht' a' ha' v hv
    cases step_fate hd hl hin hrec hstep ht' ha' with
    | @kept t a ht hhooks ha hi hn hs hlen hr hann =>
      have hv' : a.success = some v := hs.symm.trans hv
      obtain ⟨n, hone, htask, hout, hretry, hset⟩ := h.decided t ht a ha v hv'
      refine ⟨n, ?_, htask.trans hhooks.1.symm, hout, ?_, ?_⟩
      · rw [hi]
        exact (filter_other hann).trans hone
      · intro hs
        rw [hn]
        exact Nat.lt_of_lt_of_le (hretry hs) hlen
      · intro hs hrouted
        rw [hi, hhooks.1]
        rcases hr with hr | ⟨i, held, he, hdue, hheld⟩
        · exact hset hs (hr.symm.trans hrouted)
        · obtain ⟨u, hserved⟩ := hroute i held a.id he hdue
          have hu := ((h.served _ _ _ hserved).1.eq hd ht ha rfl).2
          rw [← Option.some.inj (hu.symm.trans hv'), ← hheld]
          exact hserved
    | @decided t a n ht hhooks ha hi hn hnone hann htask hattempt hs hset hretry =>
      obtain ⟨hrouted, hquiet⟩ := h.undecided t ht a ha hnone
      refine ⟨n, ?_, htask.trans hhooks.1.symm, Option.some.inj (hs.symm.trans hv), ?_, ?_⟩
      · have hnil : w.announced.filter (fun n => n.attempt = a'.id) = [] := by
          rw [List.filter_eq_nil_iff]
          intro m hm
          rw [decide_eq_true_eq, hi]
          exact hquiet m hm
        show (w.announced ++ (w.life.announces env e).toList).filter _ = _
        rw [List.filter_append, hnil, hann, Option.toList_some, List.filter_singleton]
        rw [decide_eq_true (hattempt.trans hi.symm), Bool.cond_true, List.nil_append]
      · intro hs
        rw [hn, hretry hs]
        exact Nat.lt_succ_of_le ((hl.coherent t ht).number_bounds ha).2
      · intro hs hyes
        cases ((hset hs).1.trans hrouted).symm.trans hyes
    | added hi hs hr => cases hs.symm.trans hv
  · intro n hn
    rcases List.mem_append.mp hn with hn | hn
    · exact (h.announced n hn).next hd hl hin hrec hstep
    · have hann := Option.mem_toList.mp hn
      obtain ⟨t, ht, a, ha, hid⟩ := announces_row hl hann
      obtain ⟨t', ht', htid, a', ha', haid, hfate⟩ := attempt_fate hd hl hin hrec hstep ht ha
      cases hfate with
      | kept hs hno => exact absurd hid.symm (hno n hann)
      | decided hnone hann' htask hattempt hs =>
        obtain rfl := Option.some.inj (hann.symm.trans hann')
        exact ⟨t', ht', htid.trans htask.symm, a', ha', haid.trans hid, hs⟩
  · intro i attempt v hserved
    obtain ⟨hout, hhooks⟩ := h.served i attempt v hserved
    refine ⟨hout.next hd hl hin hrec hstep, ?_⟩
    apply rows_next hd hstep hout.row _ hhooks
    intro t t' hs ht ht'
    exact ht ((hs.2 v).symm.trans ht')
  · intro i v hhook
    obtain ⟨⟨attempt, hserved⟩, hhooks⟩ := h.hooks i v hhook
    refine ⟨⟨attempt, hserved⟩, ?_⟩
    apply rows_next hd hstep (h.served i attempt v hserved).1.row _ hhooks
    intro t t' hs ht
    exact (hs.2 v).trans ht

end Told

/-- What `HookDispatcher` does where its hook is enqueued. -/
private structure Called (sync : Bool) (w : Notifying) (t : QraftTask) (v : Bool) (w' : Notifying) : Prop where
  frame : w' = { w with dispatches := w'.dispatches, hooks := w'.hooks }
  dispatches : sync = false → w'.dispatches = w'.hooks
  hooks : (w'.hooks = w.hooks ∧ (t.hooked v = true → (t.id, v) ∈ w.hooks)) ∨
    (w'.hooks = w.hooks ++ [(t.id, v)] ∧ (t.id, v) ∉ w.hooks ∧ t.hooked v = true)

private theorem dispatch_called {t : QraftTask} {v enqueued : Bool}
    (hd : sync = false → w.dispatches = w.hooks)
    (hok : t.hooked v = true → enqueued = true ∧ (sync = true → (t.id, v) ∉ w.hooks)) :
    Called sync w t v (w.dispatch sync enqueued t v) := by
  unfold dispatch
  by_cases hh : t.hooked v = true
  · obtain ⟨rfl, hfirst⟩ := hok hh
    rw [if_pos hh]
    unfold callHook
    cases sync with
    | true => exact ⟨rfl, fun h => (by cases h), .inr ⟨rfl, hfirst rfl, hh⟩⟩
    | false =>
      have hsame := hd rfl
      rw [if_neg Bool.false_ne_true]
      by_cases hm : (t.id, v) ∈ w.dispatches
      · rw [if_pos hm]
        exact ⟨rfl, hd, .inl ⟨rfl, fun _ => hsame ▸ hm⟩⟩
      · rw [if_neg hm, if_pos rfl]
        refine ⟨rfl, fun _ => ?_, .inr ⟨rfl, hsame ▸ hm, hh⟩⟩
        show w.dispatches ++ [(t.id, v)] = w.hooks ++ [(t.id, v)]
        rw [hsame]
  · rw [if_neg hh]
    exact ⟨rfl, hd, .inl ⟨rfl, fun h => absurd h hh⟩⟩

namespace Told

/-- A hook called for an attempt in a process's hands. -/
private theorem step_dispatch {x : QraftTask × AttemptId} {v enqueued : Bool} (h : w.Told sync)
    (hx : x ∈ w.life.due) (hv : heldOutcome x = some v)
    (hok : x.1.hooked v = true → enqueued = true ∧ (sync = true → (x.1.id, v) ∉ w.hooks)) :
    ({ w.dispatch sync enqueued x.1 v with
      served := w.served ++ [(x.1.id, x.2, v)] } : Notifying).Told sync := by
  obtain ⟨u, hu, hout, hrows⟩ := h.due x hx
  obtain rfl := Option.some.inj (hv.symm.trans hu)
  have hcalled := dispatch_called h.dispatches hok
  generalize w.dispatch sync enqueued x.1 v = w' at hcalled
  obtain ⟨hframe, hdispatches, hhooks⟩ := hcalled
  have hlife : w'.life = w.life := by rw [hframe]
  have hann : w'.announced = w.announced := by rw [hframe]
  have grown {c : TaskId × Bool} (hc : c ∈ w.hooks) : c ∈ w'.hooks := by
    rcases hhooks with ⟨he, -⟩ | ⟨he, -⟩
    · rw [he]
      exact hc
    · rw [he]
      exact List.mem_append_left _ hc
  have called (hh : x.1.hooked v = true) : (x.1.id, v) ∈ w'.hooks := by
    rcases hhooks with ⟨he, hin⟩ | ⟨he, -⟩
    · rw [he]
      exact hin hh
    · rw [he]
      exact List.mem_append_right _ (List.mem_singleton.mpr rfl)
  refine ⟨?_, ?_, ?_, ?_, ?_, ?_, ?_, hdispatches⟩
  · show ∀ t ∈ w'.life.store.tasks, ∀ a ∈ t.attempts, a.success = none →
      a.routed = false ∧ ∀ n ∈ w'.announced, n.attempt ≠ a.id
    rw [hlife, hann]
    exact h.undecided
  · intro t ht a ha u hu
    have ht : t ∈ w'.life.store.tasks := ht
    rw [hlife] at ht
    obtain ⟨n, hone, htask, hn, hretry, hset⟩ := h.decided t ht a ha u hu
    refine ⟨n, hann ▸ hone, htask, hn, hretry, ?_⟩
    exact fun hs hr => List.mem_append_left _ (hset hs hr)
  · show ∀ n ∈ w'.announced, w'.life.Outcome n.task n.attempt n.outcome.success
    rw [hlife, hann]
    exact h.announced
  · show ∀ x ∈ w'.life.due, ∃ v, heldOutcome x = some v ∧ w'.life.Outcome x.1.id x.2 v ∧
      ∀ t ∈ w'.life.store.tasks, t.id = x.1.id → SameHooks x.1 t
    rw [hlife]
    exact h.due
  · intro i attempt u hserved
    show w'.life.Outcome i attempt u ∧
      ∀ t ∈ w'.life.store.tasks, t.id = i → t.hooked u = true → (i, u) ∈ w'.hooks
    rw [hlife]
    rcases List.mem_append.mp hserved with hold | hnew
    · obtain ⟨ho, hh⟩ := h.served i attempt u hold
      exact ⟨ho, fun t ht hid hyes => grown (hh t ht hid hyes)⟩
    · cases List.mem_singleton.mp hnew
      exact ⟨hout, fun t ht hid hyes => called (((hrows t ht hid).2 v).symm.trans hyes)⟩
  · intro i u hhook
    have hhook : (i, u) ∈ w'.hooks := hhook
    show (∃ attempt, (i, attempt, u) ∈ w.served ++ [(x.1.id, x.2, v)]) ∧
      ∀ t ∈ w'.life.store.tasks, t.id = i → t.hooked u = true
    rw [hlife]
    have old (hc : (i, u) ∈ w.hooks) : (∃ attempt, (i, attempt, u) ∈ w.served ++ [(x.1.id, x.2, v)]) ∧
        ∀ t ∈ w.life.store.tasks, t.id = i → t.hooked u = true := by
      obtain ⟨⟨attempt, hserved⟩, hh⟩ := h.hooks i u hc
      exact ⟨⟨attempt, List.mem_append_left _ hserved⟩, hh⟩
    rcases hhooks with ⟨he, -⟩ | ⟨he, -, hh⟩
    · exact old (he ▸ hhook)
    · rw [he] at hhook
      rcases List.mem_append.mp hhook with hc | hc
      · exact old hc
      · cases List.mem_singleton.mp hc
        refine ⟨⟨x.2, List.mem_append_right _ (List.mem_singleton.mpr rfl)⟩, ?_⟩
        exact fun t ht hid => ((hrows t ht hid).2 v).trans hh
  · show w'.hooks.Nodup
    rcases hhooks with ⟨he, -⟩ | ⟨he, hno, -⟩
    · rw [he]
      exact h.once
    · rw [he]
      apply List.nodup_append.mpr
      refine ⟨h.once, List.nodup_singleton _, ?_⟩
      intro c hc d hd
      rw [List.mem_singleton.mp hd]
      rintro rfl
      exact hno hc

end Told

namespace Settled

/-- A task that is not requeued is left in order. -/
private theorem keepsOrder (hin : w.life.inOrder e = true) :
    w.life.KeepsOrder e (fun i => decide (i ∉ w.revived))
      fun i => decide (i ∉ w.revived ++ (w.life.revives e).toList) := by
  intro i t ht hp
  obtain ⟨hold, hnew⟩ := not_or.mp (mt List.mem_append.mpr (of_decide_eq_true hp))
  refine ⟨decide_eq_true hold, ?_⟩
  cases e with
  | requeueCommit k =>
    simp only [orderlyFor, Option.all_eq_true, Bool.not_eq_true', decide_eq_false_iff_not]
    rintro r hr rfl
    apply hnew
    simp only [revives, hr, Option.map_some, Option.toList_some, List.mem_singleton]
  | reap k =>
    simp only [orderlyFor, Option.all_eq_true, Bool.or_eq_true]
    exact fun rd hrd => .inr hin
  | _ => rfl

private theorem step_table (h : w.Settled) (hd : w.life.store.Distinct) (hk : w.life.Known)
    (hl : w.life.Sound) (hin : w.life.inOrder e = true) (hrec : w.life.recovers e = false)
    (hstep : w.life.step limit env e = some life) : (w.tableStep env e life).Settled := by
  have hord := keepsOrder hin
  have final {i : TaskId} {attempt : AttemptId} {v : Bool} (hf : w.life.Final i attempt v)
      (hno : i ∉ w.revived ++ (w.life.revives e).toList) : life.Final i attempt v := by
    have hrow := hf
    obtain ⟨t, ht, -⟩ := hrow
    obtain ⟨hp, hone⟩ := hord i t ht (decide_eq_true hno)
    exact hf.next h.table hd hp hone hstep
  refine ⟨h.table.step hd hk hstep hord, ?_, ?_⟩
  · intro n hn hset hno
    rcases List.mem_append.mp hn with hn | hn
    · exact final (h.announced n hn hset fun hin => hno (List.mem_append_left _ hin)) hno
    · have hann := Option.mem_toList.mp hn
      obtain ⟨t, ht, a, ha, hid⟩ := announces_row hl hann
      obtain ⟨t', ht', htid, a', ha', haid, hfate⟩ := attempt_fate hd hl hin hrec hstep ht ha
      cases hfate with
      | kept hs hquiet => exact absurd hid.symm (hquiet n hann)
      | decided hnone hann' htask hattempt hs hlast =>
        obtain rfl := Option.some.inj (hann.symm.trans hann')
        obtain ⟨hnum, hlen⟩ := hlast hset
        have hlatest := ((hl.coherent t ht).undecided ha hnone).2.1
        have hd' := (step_rows hd hstep).1
        refine ⟨t', ?_, a', ha', haid.trans hid, ?_, hs⟩
        · rw [htask, ← htid]
          exact hd'.task?_of_mem ht'
        · rw [hnum, hlen, hlatest]
  · intro i attempt v hserved hno
    exact final (h.served i attempt v hserved fun hin => hno (List.mem_append_left _ hin)) hno

/-- The outcome a process holds of a task that nobody requeued is final. -/
private theorem due_final {x : QraftTask × AttemptId} {v : Bool} (h : w.Settled) (ht : w.Told sync)
    (hd : w.life.store.Distinct) (hx : x ∈ w.life.due) (hv : heldOutcome x = some v)
    (hno : x.1.id ∉ w.revived) : w.life.Final x.1.id x.2 v := by
  obtain ⟨u, hu, hout, -⟩ := ht.due x hx
  obtain rfl := Option.some.inj (hv.symm.trans hu)
  obtain ⟨t, hmem, hid⟩ := hout.row
  have hrow := hd.task?_of_mem hmem
  rw [hid] at hrow
  obtain ⟨u, -, a, ha, haid, hnum, hs⟩ := h.table.due x hx (decide_eq_true hno) t hrow
  exact ⟨t, hrow, a, ha, haid, hnum, (hout.eq hd hmem ha haid).2⟩

end Settled
end

/-- Runs on whose steps the settlement paths agree. -/
abbrev ReachAlike (sync : Bool) (limit : Nat) : Notifying → Prop :=
  (noticeSystem sync limit).ReachWhen fun w e => w.alike sync e.2 e.1 = true

private theorem alike_table {e : LifecycleEvent} {alive : Bool} (h : w.alike sync env (.table e alive) = true) :
    w.life.inOrder e = true ∧ w.life.recovers e = false ∧
      (if alive then (w.life.announces env e).toList else []) = (w.life.announces env e).toList := by
  simp only [alike, Bool.and_eq_true, Bool.not_eq_true', Bool.or_eq_true] at h
  obtain ⟨⟨hin, hrec⟩, halive⟩ := h
  refine ⟨hin, hrec, ?_⟩
  rcases halive with rfl | hnone
  · rfl
  · rw [Option.isNone_iff_eq_none.mp hnone]
    exact ite_self _

private theorem alike_dispatch {i : Nat} {enqueued : Bool} {x : QraftTask × AttemptId} {v : Bool}
    (h : w.alike sync env (.dispatch i enqueued) = true) (hx : w.life.due[i]? = some x)
    (hv : heldOutcome x = some v) (hh : x.1.hooked v = true) :
    enqueued = true ∧ (sync = true → (x.1.id, v) ∉ w.hooks) := by
  simp only [alike, hx, Option.all_some, hv, hh, Bool.not_true, Bool.false_or, Bool.and_eq_true] at h
  obtain ⟨he, hfirst⟩ := h
  refine ⟨he, ?_⟩
  rintro rfl
  rw [Bool.true_and, Bool.not_eq_true', decide_eq_false_iff_not] at hfirst
  exact hfirst

private theorem dispatch_life (w : Notifying) (sync enqueued : Bool) (t : QraftTask) (v : Bool) :
    (w.dispatch sync enqueued t v).life = w.life ∧ (w.dispatch sync enqueued t v).announced = w.announced ∧
      (w.dispatch sync enqueued t v).revived = w.revived := by
  unfold dispatch callHook
  split
  · split
    · split
      · exact ⟨rfl, rfl, rfl⟩
      · exact ⟨rfl, rfl, rfl⟩
    · split
      · exact ⟨rfl, rfl, rfl⟩
      · split
        · exact ⟨rfl, rfl, rfl⟩
        · exact ⟨rfl, rfl, rfl⟩
  · exact ⟨rfl, rfl, rfl⟩

inductive NoticeEffect (sync : Bool) (limit : Nat) (w : Notifying) (env : Env) :
    NoticeEvent → Notifying → Prop where
  | table {e : LifecycleEvent} {alive : Bool} {life : Lifecycle} (hne : ∀ i, e ≠ .route i)
      (h : w.life.step limit env e = some life) : NoticeEffect sync limit w env (.table e alive) {
        w with
        life
        announced := w.announced ++ if alive then (w.life.announces env e).toList else []
        revived := w.revived ++ (w.life.revives e).toList }
  | dispatched {i : Nat} {enqueued : Bool} {x : QraftTask × AttemptId} {v : Bool}
      (hx : w.life.due[i]? = some x) (hv : heldOutcome x = some v) :
      NoticeEffect sync limit w env (.dispatch i enqueued)
        { w.dispatch sync enqueued x.1 v with served := w.served ++ [(x.1.id, x.2, v)] }
  | finished {i : Nat} {x : QraftTask × AttemptId} {v : Bool} {life : Lifecycle}
      (hx : w.life.due[i]? = some x) (hs : (x.1.id, x.2, v) ∈ w.served)
      (h : w.life.step limit env (.route i) = some life) :
      NoticeEffect sync limit w env (.finish i) { w with life }

theorem step_notice {e : NoticeEvent} (h : w.step sync limit env e = some w') :
    NoticeEffect sync limit w env e w' := by
  cases e with
  | table e alive =>
    have table (hne : ∀ i, e ≠ .route i) (h : (w.life.step limit env e).map (fun life =>
        { w with
          life
          announced := w.announced ++ if alive then (w.life.announces env e).toList else []
          revived := w.revived ++ (w.life.revives e).toList }) = some w') :
        NoticeEffect sync limit w env (.table e alive) w' := by
      obtain ⟨life, hlife, rfl⟩ := Option.map_eq_some_iff.mp h
      exact .table hne hlife
    cases e with
    | route i => cases h
    | _ => exact table nofun h
  | dispatch i enqueued =>
    obtain ⟨x, hx, h⟩ := Option.bind_eq_some_iff.mp h
    split at h
    · cases h
    · obtain ⟨v, hv, rfl⟩ := Option.map_eq_some_iff.mp h
      exact .dispatched hx hv
  | finish i =>
    obtain ⟨x, hx, h⟩ := Option.bind_eq_some_iff.mp h
    obtain ⟨v, hv, h⟩ := Option.bind_eq_some_iff.mp h
    split at h
    · rename_i hs
      obtain ⟨life, hlife, rfl⟩ := Option.map_eq_some_iff.mp h
      exact .finished hx hs hlife
    · cases h

/-- The table of such a run makes a run of its own. -/
theorem reach_life (h : ReachAlike sync limit w) : (lifecycleSystem limit).ReachWhen InOrder w.life := by
  apply h.invariant fun w => (lifecycleSystem limit).ReachWhen InOrder w.life
  · rintro w rfl
    exact .init rfl
  · rintro w ⟨e, env⟩ w' hw hok hstep
    cases step_notice hstep with
    | @table e alive life hne hlife => exact hw.step (e := (e, env)) (alike_table hok).1 hlife
    | dispatched hx hv =>
      rw [show ∀ u : Notifying, ∀ s, ({ u with served := s } : Notifying).life = u.life from fun _ _ => rfl]
      rw [(dispatch_life w sync _ _ _).1]
      exact hw
    | @finished i x v life hx hs hlife => exact hw.step (e := (.route i, env)) rfl hlife

private theorem told_empty (sync : Bool) : Told sync {} where
  undecided _ ht := absurd ht List.not_mem_nil
  decided _ ht := absurd ht List.not_mem_nil
  announced _ hn := absurd hn List.not_mem_nil
  due _ hx := absurd hx List.not_mem_nil
  served _ _ _ h := absurd h List.not_mem_nil
  hooks _ _ h := absurd h List.not_mem_nil
  once := List.nodup_nil
  dispatches _ := rfl

private theorem settled_empty : Settled {} where
  table := ⟨fun _ ht => absurd ht List.not_mem_nil, fun _ hx => absurd hx List.not_mem_nil⟩
  announced _ hn := absurd hn List.not_mem_nil
  served _ _ _ h := absurd h List.not_mem_nil

/-- What is told in such a run. -/
theorem reach_told (h : ReachAlike sync limit w) : w.Told sync ∧ w.Settled := by
  apply h.invariant_of (fun w => (lifecycleSystem limit).ReachWhen InOrder w.life)
    fun w => w.Told sync ∧ w.Settled
  · exact fun w hw => reach_life hw
  · rintro w rfl
    exact ⟨told_empty sync, settled_empty⟩
  · rintro w ⟨e, env⟩ w' hlife ⟨ht, hs⟩ hok hstep
    have hd := reach_distinct hlife.reach
    have hk := reach_known hlife.reach
    have hl := reach_sound hlife
    cases step_notice hstep with
    | @table e alive life hne hnext =>
      obtain ⟨hin, hrec, hann⟩ := alike_table hok
      rw [hann]
      exact ⟨ht.step_table hd hl hin hrec hnext fun i _ _ he => absurd he (hne i),
        hs.step_table hd hk hl hin hrec hnext⟩
    | @dispatched i enqueued x v hx hv =>
      have hmem := List.mem_of_getElem? hx
      refine ⟨ht.step_dispatch hmem hv (alike_dispatch hok hx hv), ?_⟩
      obtain ⟨hlife, hann, hrev⟩ := dispatch_life w sync enqueued x.1 v
      refine ⟨?_, ?_, ?_⟩
      · show (w.dispatch sync enqueued x.1 v).life.Orderly
          fun i => decide (i ∉ (w.dispatch sync enqueued x.1 v).revived)
        rw [hlife, hrev]
        exact hs.table
      · show ∀ n ∈ (w.dispatch sync enqueued x.1 v).announced, n.settled = true →
          n.task ∉ (w.dispatch sync enqueued x.1 v).revived →
          (w.dispatch sync enqueued x.1 v).life.Final n.task n.attempt n.outcome.success
        rw [hlife, hann, hrev]
        exact hs.announced
      · intro i attempt u hserved hno
        have hno : i ∉ (w.dispatch sync enqueued x.1 v).revived := hno
        show (w.dispatch sync enqueued x.1 v).life.Final i attempt u
        rw [hrev] at hno
        rw [hlife]
        rcases List.mem_append.mp hserved with hold | hnew
        · exact hs.served i attempt u hold hno
        · cases List.mem_singleton.mp hnew
          exact hs.due_final ht hd hmem hv hno
    | @finished i x v life hx hserved hnext =>
      have hroute : ∀ j held attempt, LifecycleEvent.route i = .route j →
          w.life.due[j]? = some (held, attempt) → ∃ v, (held.id, attempt, v) ∈ w.served := by
        intro j held attempt he hdue
        cases he
        obtain rfl := Option.some.inj (hx.symm.trans hdue)
        exact ⟨v, hserved⟩
      have htold := ht.step_table hd hl rfl rfl hnext hroute
      have hsettled := hs.step_table hd hk hl rfl rfl hnext
      simp only [tableStep, announces, revives, Option.toList_none, List.append_nil] at htold hsettled
      exact ⟨htold, hsettled⟩

/-- The sweep takes up an unrouted attempt, calls its hook and flags it. -/
private theorem replay_routes (h : ReachAlike sync limit w) {t : QraftTask} (ht : t ∈ w.life.store.tasks)
    {a : QraftTaskAttempt} (ha : a ∈ t.attempts) {v : Bool} (hv : a.success = some v)
    (hrouted : a.routed = false) {d : Time} (hdate : a.dateCompleted = some d)
    (hfirst : sync = true → (t.id, v) ∉ w.hooks) :
    ∃ w', (noticeSystem sync limit).Path (fun w e => w.alike sync e.2 e.1 = true) w w' ∧
      t.markRouted a.id ∈ w'.life.store.tasks := by
  have hd := reach_distinct (reach_life h).reach
  have hrow := hd.task?_of_mem ht
  have hattempt : t.attempt? a.id = some a := Rows.get?_of_mem (hd.attempts t ht) ha
  have hheld : heldOutcome (t, a.id) = some v := by
    rw [heldOutcome_of_mem (hd.attempts t ht) ha rfl, hv]
  have hspeaks : silent (t, a.id) = false := by
    unfold silent
    rw [hattempt, Option.any_some, hrouted]
  let life : Lifecycle := { w.life with due := w.life.due ++ [(t, a.id)] }
  let taken : Notifying := { w with life, announced := w.announced ++ [], revived := w.revived ++ [] }
  let called : Notifying :=
    { taken.dispatch sync true t v with served := taken.served ++ [(t.id, a.id, v)] }
  have hlife : called.life = life := (dispatch_life taken sync true t v).1
  have hdue : life.due[w.life.due.length]? = some (t, a.id) := List.getElem?_concat_length
  let env : Env := { now := 0 }
  let call : NoticeEvent := .dispatch w.life.due.length true
  let flag : NoticeEvent := .finish w.life.due.length
  let sweep : NoticeEvent := .table (.replayUnrouted t.id a.id (d + 1)) true
  have htake : w.step sync limit env sweep = some taken := by
    have hfind : w.life.find t.id a.id = some (t, a) := by
      unfold Lifecycle.find
      rw [hrow, Option.bind_some, hattempt, Option.map_some]
    have hstep : w.life.step limit env (.replayUnrouted t.id a.id (d + 1)) = some life := by
      simp only [Lifecycle.step, hfind, Option.bind_some]
      rw [if_pos]
      refine ⟨by rw [hv]; exact Option.some_ne_none _, hrouted, ?_⟩
      rw [hdate, Option.any_some]
      exact decide_eq_true (Nat.lt_succ_self d)
    simp only [sweep, step, hstep, Option.map_some]
    rfl
  have hcall : taken.step sync limit env call = some called := by
    show (life.due[w.life.due.length]?.bind _) = _
    rw [hdue, Option.bind_some, hspeaks, if_neg Bool.false_ne_true, hheld]
    rfl
  have hok : taken.alike sync env call = true := by
    show (life.due[w.life.due.length]?.all _) = true
    rw [hdue, Option.all_some, hheld, Option.all_some, Bool.true_and, Bool.or_eq_true]
    right
    cases sync with
    | false => rfl
    | true =>
      rw [Bool.true_and, Bool.not_eq_true']
      exact decide_eq_false (hfirst rfl)
  let flagged : Lifecycle :=
    { life.commit (t.markRouted a.id) with due := life.due.eraseIdx w.life.due.length }
  have hflag : called.step sync limit env flag =
      some { called with life := flagged } := by
    have hstep : life.step limit env (.route w.life.due.length) = some flagged := by
      simp only [Lifecycle.step, hdue, Option.bind_some]
      rw [show life.store.task? t.id = some t from hrow]
      rfl
    show (called.life.due[w.life.due.length]?.bind _) = _
    rw [hlife, hdue, Option.bind_some, hheld, Option.bind_some, if_pos, hstep]
    · rfl
    · exact List.mem_append_right _ (List.mem_singleton.mpr rfl)
  refine ⟨{ called with life := flagged }, ?_, ?_⟩
  · have hpath : (noticeSystem sync limit).Path (fun w e => w.alike sync e.2 e.1 = true) w w := .refl
    have htaken := hpath.step (e := (sweep, env)) rfl htake
    have hcalled := htaken.step (e := (call, env)) hok hcall
    exact hcalled.step (e := (flag, env)) rfl hflag
  · show t.markRouted a.id ∈ (life.store.save (t.markRouted a.id)).fresh.tasks
    have hid : (t.markRouted a.id).id = t.id := rfl
    exact (TaskStore.mem_save hd.tasks ht hid _).mpr (.inr rfl)

/-- So long as no reap recovers an attempt that had published, no reap or requeue acts on a superseded
read, the processes live to announce what they resolve and hooks are enqueued where they are called:
of a decided task the latest outcome is announced once, as settled; its hook is called once by the time
its attempt is flagged, and the sweep gets an attempt that is not flagged there. Of a task that nobody
requeued nothing else is settled or called. -/
theorem paths_notify_alike (h : ReachAlike sync limit w) {t : QraftTask} (ht : t ∈ w.life.store.tasks)
    {a : QraftTaskAttempt} (ha : a ∈ t.attempts) (hlast : a.attemptNumber = t.attempts.length) {v : Bool}
    (hv : a.success = some v) :
    (∃ n, n.task = t.id ∧ n.settled = true ∧ n.outcome.success = v ∧
      w.announced.filter (fun n => n.attempt = a.id) = [n] ∧
      (t.id ∉ w.revived → w.announced.filter (fun n => n.task = t.id ∧ n.settled = true) = [n])) ∧
    (a.routed = true → w.hooks.count (t.id, v) = if t.hooked v then 1 else 0) ∧
    (t.id ∉ w.revived → w.hooks.count (t.id, !v) = 0) ∧
    (a.routed = false → ∀ d, a.dateCompleted = some d → (sync = true → (t.id, v) ∉ w.hooks) →
      ∃ w', (noticeSystem sync limit).Path (fun w e => w.alike sync e.2 e.1 = true) w w' ∧
        t.markRouted a.id ∈ w'.life.store.tasks) := by
  obtain ⟨htold, hsettled⟩ := reach_told h
  have hlife := reach_life h
  have hd := reach_distinct hlife.reach
  have hc := (reach_sound hlife).coherent t ht
  have hby : DecidedBy t a.id v := ⟨a, ha, rfl, hlast, hv⟩
  have final {attempt : AttemptId} {u : Bool} (hf : w.life.Final t.id attempt u) : attempt = a.id ∧ u = v := by
    obtain ⟨t₁, ht₁, hby₁⟩ := hf
    obtain rfl := Option.some.inj ((hd.task?_of_mem ht).symm.trans ht₁)
    exact hby₁.unique hby hc
  obtain ⟨n, hone, htask, hout, hretry, hserved⟩ := htold.decided t ht a ha v hv
  have hset : n.settled = true := by
    by_contra hno
    have hlt := hretry (Bool.eq_false_iff.mpr hno)
    omega
  refine ⟨⟨n, htask, hset, hout, hone, ?_⟩, ?_, ?_, ?_⟩
  · intro hno
    rw [← hone]
    apply List.filter_congr
    intro m hm
    apply decide_eq_decide.mpr
    refine ⟨?_, ?_⟩
    · rintro ⟨hmt, hms⟩
      have hf := hsettled.announced m hm hms (hmt ▸ hno)
      rw [hmt] at hf
      exact (final hf).1
    · intro hma
      have hin : m ∈ w.announced.filter fun n => n.attempt = a.id :=
        List.mem_filter.mpr ⟨hm, decide_eq_true hma⟩
      rw [hone] at hin
      rw [List.mem_singleton.mp hin]
      exact ⟨htask, hset⟩
  · intro hrouted
    obtain ⟨-, hcalled⟩ := htold.served _ _ _ (hserved hset hrouted)
    by_cases hh : t.hooked v = true
    · rw [if_pos hh]
      exact List.count_eq_one_of_mem htold.once (hcalled t ht rfl hh)
    · rw [if_neg hh]
      apply List.count_eq_zero_of_not_mem
      intro hin
      exact hh ((htold.hooks _ _ hin).2 t ht rfl)
  · intro hno
    apply List.count_eq_zero_of_not_mem
    intro hin
    obtain ⟨⟨attempt, hserved⟩, -⟩ := htold.hooks _ _ hin
    have hflip := (final (hsettled.served _ _ _ hserved hno)).2
    cases v with
    | true => cases hflip
    | false => cases hflip
  · intro hrouted d hdate hfirst
    exact replay_routes h ht ha hv hrouted hdate hfirst

/-- The task of a graph node with a hook for its success. -/
def loadTask : QraftTask := {
  id := 0
  func := "app.load"
  successHook := some "app.loaded"
  graphId := some 7
  graphNode := some "load"
  dateUpdated := 0 }

def tableAt (now : Time) (e : LifecycleEvent) : NoticeEvent × Env := (.table e true, { now })

/-- Its worker publishes. -/
def publishedLoad : List (NoticeEvent × Env) := [
  tableAt 0 (.scheduleTask loadTask none), tableAt 1 (.claimAndEnqueue 0 1 1),
  tableAt 2 (.lease 2 .start), tableAt 3 (.commitOutput 0 1)]

/-- The result arrives. -/
def reportedLoad : List (NoticeEvent × Env) := publishedLoad ++ [
  tableAt 4 (.lease 2 .returned), tableAt 5 (.saveResult { id := 2, success := true, stopped := 4 }),
  tableAt 6 (.handleResult 0), (.dispatch 0 true, { now := 6 }), (.finish 0, { now := 6 })]

/-- The worker dies after it published, and the reaper finds the attempt. -/
def recoveredLoad : List (NoticeEvent × Env) := publishedLoad ++ [
  tableAt 100 (.selectStale 0 1 50), tableAt 100 (.readOrphan 0), tableAt 100 (.reap 0)]

theorem paths_notify_alike_reported : ∃ w, ReachAlike false 3 w ∧ ∃ t ∈ w.life.store.tasks,
    ∃ a ∈ t.attempts, a.attemptNumber = t.attempts.length ∧ a.success = some true ∧ t.hooked true = true ∧
      w.hooks.count (t.id, true) = (if t.hooked true then 1 else 0) ∧
      ∃ n, w.announced.filter (fun n => n.attempt = a.id) = [n] ∧ n.settled = true := by
  obtain ⟨w, hr, hp⟩ := StepSystem.exists_reach_of_run
    ((noticeSystem false 3).guard fun w e => w.alike false e.2 e.1 = true) reportedLoad (.init rfl)
    (fun w => w.life.store.tasks.any fun t => t.attempts.any fun a =>
      a.attemptNumber = t.attempts.length ∧ a.success = some true ∧ a.routed = true ∧ t.hooked true = true)
    (by decide)
  obtain ⟨t, ht, hp⟩ := List.any_eq_true.mp hp
  obtain ⟨a, ha, hp⟩ := List.any_eq_true.mp hp
  obtain ⟨hlast, hv, hrouted, hh⟩ := of_decide_eq_true hp
  have hreach := StepSystem.reachWhen_of_guard hr
  obtain ⟨⟨n, -, hset, -, hone, -⟩, hcalled, -⟩ := paths_notify_alike hreach ht ha hlast hv
  exact ⟨w, hreach, t, ht, a, ha, hlast, hv, hh, hcalled hrouted, n, hone, hset⟩

/-- The same task succeeds twice, with its result and without it: once its hook is called and its
resolution announced, once neither. -/
theorem recovery_is_silent : ∃ w w', (noticeSystem false 3).Reach w ∧ (noticeSystem false 3).Reach w' ∧
    ∃ t ∈ w.life.store.tasks, ∃ t' ∈ w'.life.store.tasks, t.id = t'.id ∧ t.status = .succeeded ∧
      t'.status = .succeeded ∧ t.hooked true = true ∧ t'.hooked true = true ∧
      (t.attempts.all fun a => a.routed) = true ∧ (t'.attempts.all fun a => a.routed) = true ∧
      w.hooks = [(t.id, true)] ∧ w'.hooks = [] ∧ w.announced.length = 1 ∧ w'.announced = [] := by
  obtain ⟨w, hr, hp⟩ := StepSystem.exists_reach_of_run (noticeSystem false 3) reportedLoad (.init rfl)
    (fun w => w.life.store.tasks.any fun t => t.id = 0 ∧ t.status = .succeeded ∧ t.hooked true = true ∧
      (t.attempts.all fun a => a.routed) = true ∧ w.hooks = [(0, true)] ∧ w.announced.length = 1)
    (by decide)
  obtain ⟨w', hr', hp'⟩ := StepSystem.exists_reach_of_run (noticeSystem false 3) recoveredLoad (.init rfl)
    (fun w => w.life.store.tasks.any fun t => t.id = 0 ∧ t.status = .succeeded ∧ t.hooked true = true ∧
      (t.attempts.all fun a => a.routed) = true ∧ w.hooks = [] ∧ w.announced = [])
    (by decide)
  obtain ⟨t, ht, hp⟩ := List.any_eq_true.mp hp
  obtain ⟨t', ht', hp'⟩ := List.any_eq_true.mp hp'
  obtain ⟨hid, hst, hh, hrouted, hhooks, hann⟩ := of_decide_eq_true hp
  obtain ⟨hid', hst', hh', hrouted', hhooks', hann'⟩ := of_decide_eq_true hp'
  rw [← hid] at hhooks
  exact ⟨w, w', hr, hr', t, ht, t', ht', hid.trans hid'.symm, hst, hst', hh, hh', hrouted, hrouted', hhooks,
    hhooks', hann, hann'⟩

end Notifying
end Qraft
