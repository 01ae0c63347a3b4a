import Qraft.Workflows.Parallel

/-! What each step does to an iter or batch, said once. The handles callers hold move beside it. -/
namespace Qraft.ParallelState

/-- What a step does to everything but the handles. -/
inductive ParallelEffect (defaults : RetryDefaults) (limit : Nat) (s : ParallelState) (env : Env) :
    ParallelEvent → ParallelState → Prop where
  | quiet {e : ParallelEvent} : ParallelEffect defaults limit s env e s
  | table {e : LifecycleEvent} {life : Lifecycle} (hf : s.foreign e = true)
      (h : s.life.step limit env e = some life) :
      ParallelEffect defaults limit s env (.table e) { s with life }
  | run {h : Nat} {raises : Option QraftError} {x : ParallelHandle} {t : ParallelState}
      (hx : s.handles[h]? = some x) (hi : x.items ≠ []) (hp : x.status = .pending)
      (ht : x.items.foldlM (addMember defaults env) (s.started x.items.length env) = .ok t) :
      ParallelEffect defaults limit s env (.run h raises) t
  | cancelled {h : Nat} {raises : Bool} {row : WorkflowRow} (hrow : s.model.cancel env.now = some row) :
      ParallelEffect defaults limit s env (.cancel h raises) (s.announceCancelled row raises)
  | routed {i : Nat} {held : QraftTask} {attempt : AttemptId} {a : QraftTaskAttempt} {success : Bool}
      (hd : s.life.due[i]? = some (held, attempt)) (ha : held.attempt? attempt = some a)
      (hs : a.success = some success) (hm : held.id ∈ s.members) :
      ParallelEffect defaults limit s env (.route i) { s with routings := s.routings ++
        [{ task := held.id, attempt, success, phase := .handed }] }
  | handled {k : Nat} {r : ParallelRouting} (hr : s.routings[k]? = some r) (hp : r.phase = .handed)
      (hterm : s.isTaskTerminal r = true) :
      ParallelEffect defaults limit s env (.handle k) (s.setRouting k { r with phase := .counting })
  | declined {k : Nat} {r : ParallelRouting} (hr : s.routings[k]? = some r) (hp : r.phase = .handed)
      (hterm : s.isTaskTerminal r = false) :
      ParallelEffect defaults limit s env (.handle k) (s.setRouting k { r with phase := .returned })
  | skipped {k : Nat} {r : ParallelRouting} (hr : s.routings[k]? = some r) (hp : r.phase = .counting)
      (hskip : s.model.status = .cancelled ∨ (r.task, r.attempt) ∈ s.counted) :
      ParallelEffect defaults limit s env (.increment k) (s.setRouting k { r with phase := .returned })
  | counted {k : Nat} {r : ParallelRouting} (hr : s.routings[k]? = some r) (hp : r.phase = .counting)
      (hc : s.model.status ≠ .cancelled) (hnew : (r.task, r.attempt) ∉ s.counted)
      (hopen : s.model.totalCount ≤ s.model.completedCount + 1 →
        s.model.settledAt ≠ none ∨ s.model.status.Terminal) :
      ParallelEffect defaults limit s env (.increment k)
        ((s.counting r env).setRouting k { r with phase := .returned })
  | completed {k : Nat} {r : ParallelRouting} {row : WorkflowRow} (hr : s.routings[k]? = some r)
      (hp : r.phase = .counting) (hc : s.model.status ≠ .cancelled)
      (hnew : (r.task, r.attempt) ∉ s.counted)
      (hfull : s.model.totalCount ≤ s.model.completedCount + 1)
      (hrow : (s.model.count r.success env.now).settleWorkflow
        (s.model.count r.success env.now).outcome env.now = some row) :
      ParallelEffect defaults limit s env (.increment k)
        (((s.counting r env).settled row).setRouting k { r with
          phase := .announcing ((s.counting r env).model.withRow row) s.settlements.length })
  | announced {k : Nat} {r : ParallelRouting} {m : QraftParallelModel} {settlement : Nat} {raises : Bool}
      (hr : s.routings[k]? = some r) (hp : r.phase = .announcing m settlement) :
      ParallelEffect defaults limit s env (.announce k raises)
        ((s.dispatchWorkflowHook m m.hookType settlement raises).setRouting k { r with phase := .returned })
  | finished {k i : Nat} {r : ParallelRouting} {held : QraftTask} {life : Lifecycle}
      (hr : s.routings[k]? = some r) (hp : r.phase = .returned)
      (hd : s.life.due[i]? = some (held, r.attempt)) (ht : held.id = r.task)
      (h : s.life.step limit env (.route i) = some life) :
      ParallelEffect defaults limit s env (.finish k i) { s.endRouting k with life }
  | crashed {k : Nat} : ParallelEffect defaults limit s env (.crash k) (s.endRouting k)

/-- What a fan-out keeps: it holds once the workflow is published, and survives each member. -/
theorem fanOut_induct {defaults : RetryDefaults} {env : Env} (P : ParallelState → Prop)
    (hstep : ∀ s metadata cluster, P s → P (s.joined metadata cluster env))
    {items : List ParallelItem} {s t : ParallelState} (hs : P s)
    (h : items.foldlM (addMember defaults env) s = .ok t) : P t := by
  induction items generalizing s with
  | nil =>
    cases h
    exact hs
  | cons item items ih =>
    rw [List.foldlM_cons] at h
    obtain ⟨u, hu, h⟩ := Transaction.bind_eq_ok.mp h
    obtain ⟨metadata, -, hu⟩ := Transaction.bind_eq_ok.mp hu
    cases hu
    exact ih (hstep s metadata _ hs) h

/-- A fan-out creates tasks, one for each item, and touches nothing else. -/
theorem fanOut_eq {defaults : RetryDefaults} {env : Env} {items : List ParallelItem} {s t : ParallelState}
    (h : items.foldlM (addMember defaults env) s = .ok t) :
    ∃ life ms, ms.length = items.length ∧ t = { s with life, members := s.members ++ ms } := by
  induction items generalizing s with
  | nil =>
    cases h
    exact ⟨t.life, [], rfl, by rw [List.append_nil]⟩
  | cons item items ih =>
    rw [List.foldlM_cons] at h
    obtain ⟨u, hu, h⟩ := Transaction.bind_eq_ok.mp h
    obtain ⟨metadata, -, hu⟩ := Transaction.bind_eq_ok.mp hu
    cases hu
    obtain ⟨life, ms, hlen, rfl⟩ := ih h
    refine ⟨life, s.life.store.nextId :: ms, by rw [List.length_cons, List.length_cons, hlen], ?_⟩
    rw [joined, List.append_assoc, List.singleton_append]

/-- What the locked section of `_atomic_increment` does. -/
theorem step_increment {defaults : RetryDefaults} {limit : Nat} {s : ParallelState} {env : Env}
    {k : Nat} {r : ParallelRouting} (hr : s.routings[k]? = some r) (hp : r.phase = .counting) :
    ParallelEffect defaults limit s env (.increment k)
      ((s.atomicIncrement r env).1.setRouting k { r with
        phase := (s.atomicIncrement r env).1.settledPhase (s.atomicIncrement r env).2 }) := by
  unfold atomicIncrement
  split
  · rename_i hc
    exact .skipped hr hp (.inl hc)
  · rename_i hc
    split
    · rename_i hm
      exact .skipped hr hp (.inr hm)
    · rename_i hnew
      dsimp only
      split
      · rename_i hfull
        split
        · rename_i hrow
          refine .counted hr hp hc hnew fun _ => ?_
          by_contra hopen
          obtain ⟨hs, ht⟩ := not_or.mp hopen
          have hsome : (s.model.count r.success env.now).settleWorkflow
              (s.model.count r.success env.now).outcome env.now = some _ :=
            if_pos ⟨not_not.mp hs, ht⟩
          cases hrow.symm.trans hsome
        · rename_i row hrow
          have hlen : ((s.counting r env).settled row).settlements.length - 1 = s.settlements.length := by
            simp [ParallelState.settled, counting]
          rw [settledPhase]
          have he : ParallelEffect defaults limit s env _ _ := .completed hr hp hc hnew hfull hrow
          rw [← hlen] at he
          exact he
      · rename_i hfew
        exact .counted hr hp hc hnew fun hfull => absurd hfull hfew

/-- What a step does to the workflow. -/
theorem step_effect {defaults : RetryDefaults} {limit : Nat} {s s' : ParallelState} {env : Env}
    {e : ParallelEvent} (h : s.step defaults limit env e = some s') :
    ∃ t handles, ParallelEffect defaults limit s env e t ∧ s' = { t with handles } := by
  cases e with
  | table e =>
    simp only [step] at h
    split at h
    · rename_i hf
      obtain ⟨life, hl, rfl⟩ := Option.map_eq_some_iff.mp h
      exact ⟨_, _, .table hf hl, rfl⟩
    · cases h
  | load items =>
    cases h
    exact ⟨_, _, .quiet, rfl⟩
  | refresh i =>
    cases h
    exact ⟨_, _, .quiet, rfl⟩
  | run i raises =>
    obtain ⟨x, hx, rfl⟩ := Option.map_eq_some_iff.mp h
    split
    · rename_i t hok
      unfold run at hok
      split at hok
      · cases hok
      · rename_i hi
        split at hok
        · cases hok
        · rename_i hp
          obtain ⟨u, hu, hok⟩ := Transaction.bind_eq_ok.mp hok
          cases raises with
          | some err => cases hok
          | none =>
            cases hok
            exact ⟨_, _, .run hx hi (not_not.mp hp) hu, rfl⟩
    · split
      · exact ⟨_, _, .quiet, rfl⟩
      · exact ⟨_, _, .quiet, rfl⟩
  | cancel i raises =>
    obtain ⟨x, _, rfl⟩ := Option.map_eq_some_iff.mp h
    split
    · rename_i row hrow
      exact ⟨_, _, .cancelled hrow, rfl⟩
    · exact ⟨_, _, .quiet, rfl⟩
  | route i =>
    obtain ⟨⟨held, attempt⟩, hd, h⟩ := Option.bind_eq_some_iff.mp h
    obtain ⟨a, ha, h⟩ := Option.bind_eq_some_iff.mp h
    obtain ⟨success, hs, h⟩ := Option.bind_eq_some_iff.mp h
    split at h
    · rename_i hm
      cases h
      exact ⟨_, _, .routed hd ha hs (of_decide_eq_true hm), rfl⟩
    · cases h
  | handle k =>
    obtain ⟨r, hr, h⟩ := Option.bind_eq_some_iff.mp h
    split at h
    · rename_i hp
      cases h
      cases hterm : s.isTaskTerminal r with
      | true => exact ⟨_, _, .handled hr hp hterm, rfl⟩
      | false => exact ⟨_, _, .declined hr hp hterm, rfl⟩
    · cases h
  | increment k =>
    obtain ⟨r, hr, h⟩ := Option.bind_eq_some_iff.mp h
    split at h
    · rename_i hp
      cases h
      exact ⟨_, _, step_increment hr hp, rfl⟩
    · cases h
  | announce k raises =>
    obtain ⟨r, hr, h⟩ := Option.bind_eq_some_iff.mp h
    split at h
    · rename_i m settlement hp
      cases h
      exact ⟨_, _, .announced hr hp, rfl⟩
    · cases h
  | finish k i =>
    obtain ⟨r, hr, h⟩ := Option.bind_eq_some_iff.mp h
    obtain ⟨⟨held, attempt⟩, hd, h⟩ := Option.bind_eq_some_iff.mp h
    simp only at h
    split at h
    · rename_i hp
      split at h
      · rename_i ht
        obtain ⟨life, hl, rfl⟩ := Option.map_eq_some_iff.mp h
        exact ⟨_, _, .finished hr hp (ht.2 ▸ hd) ht.1 hl, rfl⟩
      · cases h
    · cases h
  | crash k =>
    cases h
    exact ⟨_, _, .crashed, rfl⟩

section
variable {defaults : RetryDefaults} {limit : Nat} {s t : ParallelState} {env : Env} {e : ParallelEvent}

/-- The table goes on by its own steps. -/
theorem life_effect (h : ParallelEffect defaults limit s env e t)
    (hl : (lifecycleSystem limit).Reach s.life) : (lifecycleSystem limit).Reach t.life := by
  have next {e : LifecycleEvent} {life : Lifecycle} (h : s.life.step limit env e = some life) :
      (lifecycleSystem limit).Reach life := .step (e := (e, env)) hl trivial h
  cases h with
  | table hf h => exact next h
  | finished hr hp hd ht h => exact next h
  | @run h raises x t hx hi hp ht =>
    have hstart : (lifecycleSystem limit).Reach (s.started x.items.length env).life := hl
    apply fanOut_induct (fun s => (lifecycleSystem limit).Reach s.life) _ hstart ht
    intro s metadata cluster hl
    exact .step (e := (.asyncTask metadata cluster none, env)) hl trivial
      (Lifecycle.step_asyncTask limit s.life metadata cluster env)
  | quiet | cancelled | routed | handled | declined | skipped | counted | completed | announced | crashed =>
    exact hl

theorem reach_life {P : ParallelState → ParallelEvent × Env → Prop}
    (h : (parallelSystem defaults limit).ReachWhen P s) : (lifecycleSystem limit).Reach s.life := by
  apply h.invariant (fun s : ParallelState => (lifecycleSystem limit).Reach s.life)
  · rintro s ⟨model, -, -, -, -, -, -, rfl⟩
    exact .init rfl
  · rintro s ⟨e, env⟩ s' ih - hstep
    obtain ⟨t, handles, he, rfl⟩ := step_effect hstep
    have ht := life_effect he ih
    exact ht

end

end Qraft.ParallelState
