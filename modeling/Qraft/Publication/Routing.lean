import Qraft.Publication.Fence

/-! Decided tasks of the graph's nodes: which steps fail one for good, and who still has to tell
its node. -/
namespace Qraft

namespace QraftTask
variable {t t' : QraftTask} {id newId : AttemptId} {env : Env} {cancelled : Bool} {routing : Routing}

/-- Whether a failure of an attempt leaves no retry. -/
def givesUp (t : QraftTask) (attemptNumber : Nat) (exceptionClass : Option String)
    (ownerCancelled : Bool) : Bool :=
  ownerCancelled || t.retryPolicy.all fun policy => !policy.shouldRetry attemptNumber exceptionClass

theorem handleTaskRetry_gives_up {number : Nat} {exc : Option String} {retryAfter : Option ℚ}
    (h : t.handleTaskRetry number exc retryAfter newId env = .ok (t', false)) (cancelled : Bool) :
    t.givesUp number exc cancelled = true := by
  unfold handleTaskRetry at h
  unfold givesUp
  split at h
  · rename_i hp
    rw [hp, Option.all_none, Bool.or_true]
  · rename_i policy hp
    split at h
    · obtain ⟨u, -, he⟩ := Transaction.map_eq_ok.mp h
      cases he
    · rename_i hretry
      rw [hp, Option.all_some, Bool.eq_false_iff.mpr hretry, Bool.not_false, Bool.or_true]

theorem handleTaskRetry_scheduled {number : Nat} {exc : Option String} {retryAfter : Option ℚ}
    (h : t.handleTaskRetry number exc retryAfter newId env = .ok (t', true)) : t'.status = .pending := by
  rcases handleTaskRetry_ok h with ⟨he, -⟩ | ⟨-, policy, notBefore, cluster, -, -, hok⟩
  · cases he
  · obtain ⟨-, a, -, -, -, -, -, -, rfl⟩ := scheduleAttempt_ok hok
    rfl

/-- A result fails its task for good when no retry follows. -/
theorem handleResult_dead {r : Q2Task}
    (h : t.handleResult id r cancelled newId env = .ok (t', routing)) (hdead : t'.status.Dead) :
    t.status.Dead ∨ ∃ a ∈ t.attempts, a.id = id ∧ a.success = none ∧ r.success = false ∧
      t.givesUp a.attemptNumber r.exceptionClass cancelled = true := by
  unfold handleResult at h
  split at h
  · cases h
    exact .inl hdead
  · rename_i a hfind
    have ha := List.mem_of_find?_eq_some hfind
    have hp := List.find?_some hfind
    simp only [decide_eq_true_eq] at hp
    simp only at h
    cases hs : r.success with
    | true =>
      rw [if_pos (.inl hs)] at h
      cases h
      simp [hs, TaskStatus.Dead] at hdead
    | false =>
      refine .inr ⟨a, ha, hp.1, hp.2, rfl, ?_⟩
      cases cancelled with
      | true => rfl
      | false =>
        simp only [hs, Bool.false_eq_true, or_self, if_false] at h
        obtain ⟨⟨u, scheduled⟩, hu, he⟩ := Transaction.bind_eq_ok.mp h
        cases scheduled with
        | false =>
          have hup := handleTaskRetry_gives_up hu false
          exact hup
        | true =>
          have hpending := handleTaskRetry_scheduled hu
          cases he
          rw [markRouted, updateAttempt_status, hpending] at hdead
          simp [TaskStatus.Dead] at hdead

/-- So does a reap of an attempt that had not published when the reaper read it. -/
theorem reap_dead {row : QraftTaskAttempt}
    (h : t.reap row cancelled newId env = .ok (t', routing)) (hdead : t'.status.Dead) :
    row.outputCommittedAt = none ∧
      t.givesUp row.attemptNumber (some (orphanException row)) cancelled = true := by
  unfold reap at h
  split at h
  · cases h
    simp [resolveCommitted, markRouted, TaskStatus.Dead] at hdead
  · rename_i hrow
    refine ⟨not_not.mp hrow, ?_⟩
    cases cancelled with
    | true => rfl
    | false =>
      simp only [Bool.false_eq_true, if_false] at h
      obtain ⟨⟨u, scheduled⟩, hu, he⟩ := Transaction.bind_eq_ok.mp h
      cases scheduled with
      | false =>
        have hup := handleTaskRetry_gives_up hu false
        exact hup
      | true =>
        have hpending := handleTaskRetry_scheduled hu
        cases he
        rw [markRouted, updateAttempt_status, hpending] at hdead
        simp [TaskStatus.Dead] at hdead

end QraftTask

namespace Lifecycle
open QraftTask

/-- The task whose failure a step makes final. -/
def fails (l : Lifecycle) : LifecycleEvent → Option TaskId
  | .handleResult i =>
    l.results[i]?.bind fun result => (l.store.resolveAttempt result.id).bind fun (t, a) =>
      if result.success = false ∧ a.success = none ∧
          t.givesUp a.attemptNumber result.exceptionClass (l.ownerCancelled t) = true then some t.id
      else none
  | .reap i =>
    l.reads[i]?.bind fun rd => (l.store.task? rd.task).bind fun t =>
      if t.reapable rd.row rd.heartbeatCutoff (l.q2Row rd.row) = true ∧ rd.row.outputCommittedAt = none ∧
          t.givesUp rd.row.attemptNumber (some (orphanException rd.row)) (l.ownerCancelled t) = true then
        some t.id
      else none
  | _ => none

/-- A task is FAILED or EXHAUSTED, or was when a process that has yet to route it read it. -/
def failing (l : Lifecycle) (task : TaskId) : Bool :=
  (l.store.task? task).any (fun t => t.status.Dead) || l.due.any fun x => x.1.id = task && x.1.status.Dead

/-- Who will report a decided task: a process that has it to route, or `replay_unrouted`, on an
attempt that no process is about to flag for an older instance. -/
def tells (l : Lifecycle) (t : QraftTask) : Bool :=
  (l.due.any fun x => x.1.id = t.id && x.1.status.Terminal) ||
    t.attempts.any fun a => a.success.isSome && !a.routed &&
      l.due.all fun x => x.1.id ≠ t.id || x.2 ≠ a.id || x.1.status.Terminal

def told (l : Lifecycle) (task : TaskId) : Bool :=
  (l.store.task? task).all fun t => !t.status.Terminal || l.tells t

/-- The decided task that nobody reports once its process is dead. -/
def strands (l : Lifecycle) : LifecycleEvent → Option TaskId
  | .crash i =>
    l.due[i]?.bind fun (held, _) =>
      if ({ l with due := l.due.eraseIdx i } : Lifecycle).told held.id then none else some held.id
  | _ => none

section
variable {limit : Nat} {l l' : Lifecycle} {env : Env} {e : LifecycleEvent} {i : TaskId} {t t' : QraftTask}

theorem TaskEffect.dead (h : TaskEffect limit l env e t t') (hd : l.store.Distinct)
    (ht : l.store.task? i = some t) (hdead : t'.status.Dead) : t.status.Dead ∨ l.fails e = some i := by
  obtain ⟨hmem, rfl⟩ := TaskStore.task?_eq_some ht
  cases h with
  | same => exact .inl hdead
  | leased => exact .inl hdead
  | rearmed => exact .inl hdead
  | moved h =>
    cases h with
    | claimed hok =>
      obtain ⟨-, rfl⟩ := claimAndEnqueue_eq_some hok
      rw [setStatus_status] at hdead
      split at hdead
      · simp [TaskStatus.Dead] at hdead
      · exact .inl hdead
    | published => exact .inl hdead
    | routed => exact .inl hdead
    | @result i r a _ _ routing hr ha hq hok =>
      rcases handleResult_dead hok hdead with hold | ⟨b, hb, hid, hnone, hs, hup⟩
      · exact .inl hold
      · obtain rfl := Rows.eq_of_key_eq (hd.attempts t hmem) hb ha hid
        refine .inr ?_
        rw [fails, hr, Option.bind_some, hd.resolveAttempt_of_mem hmem ha hq, Option.bind_some]
        exact if_pos ⟨hs, hnone, hup⟩
    | @reaped i rd _ _ routing hr hrd hp hok =>
      obtain ⟨hrow, hup⟩ := reap_dead hok hdead
      refine .inr ?_
      rw [fails, hr, Option.bind_some, hrd, Option.bind_some]
      exact if_pos ⟨hp, hrow, hup⟩
    | requeued hr hrt hok =>
      obtain ⟨-, a, -, -, -, -, -, -, rfl⟩ := scheduleAttempt_ok hok
      simp [TaskStatus.Dead] at hdead

/-- A task comes to fail by the steps that make its failure final. -/
theorem step_failing (hd : l.store.Distinct) (hstep : l.step limit env e = some l')
    (hfail : l'.failing i = true) : l.failing i = true ∨ l.fails e = some i := by
  have row {t : QraftTask} (ht : l.store.task? i = some t) (hdead : t.status.Dead) :
      l.failing i = true := by
    rw [failing, ht, Option.any_some, decide_eq_true hdead, Bool.true_or]
  have hold {x : QraftTask × AttemptId} (hx : x ∈ l.due) (hid : x.1.id = i) (hdead : x.1.status.Dead) :
      l.failing i = true := by
    rw [failing, Bool.or_eq_true]
    refine .inr (List.any_eq_true.mpr ⟨x, hx, ?_⟩)
    simp [hid, hdead]
  rw [failing, Bool.or_eq_true] at hfail
  rcases hfail with hfail | hfail
  · obtain ⟨t', ht', hdead⟩ := (Option.any_eq_true _ _).mp hfail
    have hdead := of_decide_eq_true hdead
    obtain ⟨hmem', rfl⟩ := TaskStore.task?_eq_some ht'
    rcases step_origin hd hstep hmem' with
      ⟨t, ht, heff⟩ | ⟨metadata, cluster, trace, -, hnew⟩ | ⟨metadata, cluster, -, hok⟩
    · rcases heff.dead hd ht hdead with hdead | hfails
      · exact .inl (row ht hdead)
      · exact .inr hfails
    · rw [hnew] at hdead
      simp [enqueued, TaskStatus.Dead] at hdead
    · obtain ⟨-, a, -, -, -, -, -, -, hnew⟩ := scheduleAttempt_ok hok
      rw [hnew] at hdead
      simp [TaskStatus.Dead] at hdead
  · obtain ⟨x, hx, hp⟩ := List.any_eq_true.mp hfail
    simp only [Bool.and_eq_true, decide_eq_true_eq] at hp
    obtain ⟨hid, hdead⟩ := hp
    rcases step_due hd hstep hx with hx | ⟨a, hfind, -⟩ | ⟨t, number, hfind, -, hm, -⟩
    · exact .inl (hold hx hid hdead)
    · exact .inl (row (hid ▸ hfind) hdead)
    · rw [hid] at hfind
      have heff : TaskEffect limit l env e t x.1 := .moved hm
      rcases heff.dead hd hfind hdead with hdead | hfails
      · exact .inl (row hfind hdead)
      · exact .inr hfails

/-- A task in the hands of a process stays there until its routing ends, or the process. -/
theorem step_routes (hstep : l.step limit env e = some l') {x : QraftTask × AttemptId} (hx : x ∈ l.due) :
    x ∈ l'.due ∨ ∃ i, (e = .route i ∨ e = .crash i) ∧ l.due[i]? = some x := by
  have erased (i : Nat) : x ∈ l.due.eraseIdx i ∨ l.due[i]? = some x := by
    obtain ⟨j, hj⟩ := List.getElem?_of_mem hx
    by_cases he : j = i
    · exact .inr (he ▸ hj)
    · exact .inl (List.mem_eraseIdx_iff_getElem?.mpr ⟨j, he, hj⟩)
  cases e with
  | route i =>
    obtain ⟨⟨held, attempt⟩, hd, h⟩ := Option.bind_eq_some_iff.mp hstep
    obtain ⟨t, -, rfl⟩ := Option.map_eq_some_iff.mp h
    rcases erased i with hin | hi
    · exact .inl hin
    · exact .inr ⟨i, .inl rfl, hi⟩
  | crash i =>
    obtain rfl := Option.some.inj hstep
    rcases erased i with hin | hi
    · exact .inl hin
    · exact .inr ⟨i, .inr rfl, hi⟩
  | _ =>
    simp only [step, Option.bind_eq_some_iff, Option.map_eq_some_iff] at hstep
    grind [commit, resolve, Option.map_eq_some_iff]

private theorem due_of_terminal {id newId : AttemptId} {number : Nat} {now : Time} {routing : Routing}
    (h : Resolved t id number newId now t' routing) (hterm : t'.status.Terminal) : routing = .due := by
  obtain ⟨f, success, -, ⟨hdue, -⟩ | ⟨-, -, hpending, -⟩⟩ := resolved_rows h
  · exact hdue
  · rw [hpending] at hterm
    simp [TaskStatus.Terminal] at hterm

/-- Who decides a task has it in hand. -/
theorem step_hands_over (hd : l.store.Distinct) (hstep : l.step limit env e = some l')
    (ht : l.store.task? i = some t) (ht' : l'.store.task? i = some t') (hterm : t'.status.Terminal)
    (hopen : ¬ t.status.Terminal) : ∃ x ∈ l'.due, x.1 = t' := by
  obtain ⟨u, hu, heff⟩ := step_task hd hstep ht
  rw [ht'] at hu
  obtain rfl := Option.some.inj hu
  obtain ⟨hmem, rfl⟩ := TaskStore.task?_eq_some ht
  have last {attempt : AttemptId} : (t', attempt) ∈ l.due ++ [(t', attempt)] :=
    List.mem_append_right _ (List.mem_singleton.mpr rfl)
  cases heff with
  | same => exact absurd hterm hopen
  | leased => exact absurd hterm hopen
  | rearmed => exact absurd hterm hopen
  | moved h =>
    cases h with
    | claimed hok =>
      obtain ⟨-, rfl⟩ := claimAndEnqueue_eq_some hok
      rw [setStatus_status] at hterm
      split at hterm
      · simp [TaskStatus.Terminal] at hterm
      · exact absurd hterm hopen
    | published => exact absurd hterm hopen
    | routed => exact absurd hterm hopen
    | @result i r a _ _ routing hr ha hq hok =>
      have hdue : routing = .due := by
        rcases handleResult_ok hok with ⟨he, -⟩ | ⟨b, -, -, -, hres⟩
        · cases he
          exact absurd hterm hopen
        · exact due_of_terminal hres hterm
      simp only [step, hr, Option.bind_some, hd.resolveAttempt_of_mem hmem ha hq, hok, hdue,
        Except.toOption, Option.map_some, Option.some.injEq] at hstep
      rw [← hstep]
      exact ⟨(t', a.id), last, rfl⟩
    | @reaped i rd _ _ routing hr hrd hp hok =>
      have hrun : t.status = .running := by
        simp only [reapable, Bool.and_eq_true, decide_eq_true_eq] at hp
        exact hp.1.1.2
      have hdue := due_of_terminal (reap_ok hrun hok) hterm
      subst hdue
      have hok' : t.reap rd.row (ownerCancelled { l with reads := l.reads.eraseIdx i } t)
          l.store.nextId env = .ok (t', .due) := hok
      have hp' : t.reapable rd.row rd.heartbeatCutoff
          (q2Row { l with reads := l.reads.eraseIdx i } rd.row) = true := hp
      simp only [step, hr, Option.bind_some, hrd, hp', if_true, hok', Except.toOption,
        Option.map_some, Option.some.injEq] at hstep
      rw [← hstep]
      exact ⟨(t', rd.row.id), last, rfl⟩
    | requeued hr hrt hok =>
      obtain ⟨-, a, -, -, -, -, -, -, rfl⟩ := scheduleAttempt_ok hok
      simp [TaskStatus.Terminal] at hterm

/-- A decided attempt of a decided task stays unflagged until a process flags it. -/
theorem Turn.unflagged (h : Turn l env e t t') (hids : (t.attempts.map fun a => a.id).Nodup)
    (hterm : t.status.Terminal) (hterm' : t'.status.Terminal) {a : QraftTaskAttempt} (ha : a ∈ t.attempts)
    (hs : a.success ≠ none) (hr : a.routed = false)
    (hroute : ∀ j held, e = .route j → l.due[j]? = some (held, a.id) → held.id ≠ t.id) :
    ∃ a' ∈ t'.attempts, a'.id = a.id ∧ a'.success ≠ none ∧ a'.routed = false := by
  cases h with
  | @kept f hf hrows _ _ =>
    obtain ⟨hid, -, hs', hr'⟩ := hf a ha
    refine ⟨f a, ?_, hid, hs' ▸ hs, hr'.trans hr⟩
    rw [hrows]
    exact List.mem_map_of_mem ha
  | @flagged j held attempt he hd hid ht =>
    have hne : a.id ≠ attempt := by
      rintro rfl
      exact hroute j held he hd hid
    have hmem := Rows.mem_updateWhere_of_mem (p := fun b => decide (b.id = attempt))
      (f := fun b => { b with routed := true }) ha
    rw [if_neg (by simpa using hne)] at hmem
    exact ⟨a, ht ▸ hmem, rfl, hs, hr⟩
  | @resolved b r routing hb hn _ hres =>
    obtain ⟨f, success, hd, ⟨-, -, hrows⟩ | ⟨-, -, hpending, -⟩⟩ := resolved_rows hres
    · have hne : a.id ≠ b.id := by
        intro he
        rw [Rows.eq_of_key_eq hids ha hb he] at hs
        exact hs hn
      have hmem : f a ∈ t'.attempts := by
        rw [hrows]
        exact List.mem_map_of_mem ha
      rw [hd.same a hne] at hmem
      exact ⟨a, hmem, rfl, hs, hr⟩
    · rw [hpending] at hterm'
      simp [TaskStatus.Terminal] at hterm'
  | reaped _ _ _ hp _ =>
    simp only [reapable, Bool.and_eq_true, decide_eq_true_eq] at hp
    rw [hp.1.1.2] at hterm
    simp [TaskStatus.Terminal] at hterm
  | requeued _ _ _ hok =>
    obtain ⟨-, b, -, -, -, -, -, -, rfl⟩ := scheduleAttempt_ok hok
    simp [TaskStatus.Terminal] at hterm'

theorem tells_iff : l.tells t = true ↔ (∃ x ∈ l.due, x.1.id = t.id ∧ x.1.status.Terminal) ∨
    ∃ a ∈ t.attempts, a.success ≠ none ∧ a.routed = false ∧
      ∀ x ∈ l.due, x.1.id = t.id → x.2 = a.id → x.1.status.Terminal := by
  simp [tells, Option.isSome_iff_ne_none, and_assoc, imp_iff_not_or, or_assoc]

theorem told_iff : l.told i = true ↔
    ∀ t, l.store.task? i = some t → t.status.Terminal → l.tells t = true := by
  cases ht : l.store.task? i with
  | none => simp [told, ht]
  | some t => simp [told, ht, ← imp_iff_not_or]

/-- Processes that have other tasks to route do not matter. -/
theorem tells_eraseIdx (h : l.tells t = true) {j : Nat} (hj : ∀ x, l.due[j]? = some x → x.1.id ≠ t.id) :
    ({ l with due := l.due.eraseIdx j } : Lifecycle).tells t = true := by
  rw [tells_iff] at h ⊢
  rcases h with ⟨x, hx, hid, hterm⟩ | ⟨a, ha, hs, hr, hall⟩
  · obtain ⟨k, hk⟩ := List.getElem?_of_mem hx
    refine .inl ⟨x, List.mem_eraseIdx_iff_getElem?.mpr ⟨k, ?_, hk⟩, hid, hterm⟩
    rintro rfl
    exact hj x hk hid
  · exact .inr ⟨a, ha, hs, hr, fun x hx => hall x (List.mem_of_mem_eraseIdx hx)⟩

/-- A decided task that somebody will report stays so, unless the process that was to report it dies
or is done with it. -/
theorem step_told (hd : l.store.Distinct) (hstep : l.step limit env e = some l') (h : l.told i = true)
    (hroute : ∀ j x, e = .route j → l.due[j]? = some x → x.1.id = i → ¬ x.1.status.Terminal)
    (hcrash : l.strands e ≠ some i) : l'.told i = true := by
  by_cases he : ∃ j, e = .crash j
  · obtain ⟨j, rfl⟩ := he
    obtain rfl := Option.some.inj hstep
    by_contra hlost
    by_cases hj : ∃ x, l.due[j]? = some x ∧ x.1.id = i
    · obtain ⟨x, hx, rfl⟩ := hj
      apply hcrash
      rw [strands, hx, Option.bind_some]
      exact if_neg hlost
    · apply hlost
      rw [told_iff] at h ⊢
      intro t ht hterm
      apply tells_eraseIdx (h t ht hterm)
      intro x hx hid
      exact hj ⟨x, hx, hid.trans (TaskStore.task?_eq_some ht).2⟩
  rw [told_iff] at h ⊢
  intro t' ht' hterm'
  obtain ⟨hmem', hid'⟩ := TaskStore.task?_eq_some ht'
  rcases step_origin hd hstep hmem' with
    ⟨t, ht, heff⟩ | ⟨metadata, cluster, trace, -, hnew⟩ | ⟨metadata, cluster, -, hok⟩
  · rw [hid'] at ht
    obtain ⟨hmem, hid⟩ := TaskStore.task?_eq_some ht
    have hsame : t'.id = t.id := hid'.trans hid.symm
    rw [tells_iff]
    by_cases hterm : t.status.Terminal
    · rcases tells_iff.mp (h t ht hterm) with ⟨x, hx, hxid, hxterm⟩ | ⟨a, ha, hs, hr, hall⟩
      · rcases step_routes hstep hx with hx' | ⟨j, hj | hj, hx'⟩
        · exact .inl ⟨x, hx', hxid.trans hsame.symm, hxterm⟩
        · exact absurd hxterm (hroute j x hj hx' (hxid.trans hid))
        · exact absurd ⟨j, hj⟩ he
      · -- The attempt is flagged by nobody: those who have it would report the task.
        obtain ⟨a', ha', haid, hs', hr'⟩ := heff.turn.unflagged (hd.attempts t hmem) hterm hterm' ha hs hr
          (fun j held hj hx hheld => hroute j _ hj hx (hheld.trans hid)
            (hall _ (List.mem_of_getElem? hx) hheld rfl))
        refine .inr ⟨a', ha', hs', hr', ?_⟩
        intro x hx hxid hxa
        rcases step_due hd hstep hx with hold | ⟨-, hfind, -⟩ | ⟨-, -, -, hfind, -⟩
        · exact hall x hold (hxid.trans hsame) (hxa.trans haid)
        · rw [hxid, hid', ht] at hfind
          rw [← Option.some.inj hfind]
          exact hterm
        · rw [hxid, hid', ht'] at hfind
          rw [← Option.some.inj hfind]
          exact hterm'
    · obtain ⟨x, hx, hx'⟩ := step_hands_over hd hstep ht ht' hterm' hterm
      exact .inl ⟨x, hx, by rw [hx'], by rw [hx']; exact hterm'⟩
  · rw [hnew] at hterm'
    simp [enqueued, TaskStatus.Terminal] at hterm'
  · obtain ⟨-, a, -, -, -, -, -, -, hnew⟩ := scheduleAttempt_ok hok
    rw [hnew] at hterm'
    simp [TaskStatus.Terminal] at hterm'

end
end Lifecycle
end Qraft
