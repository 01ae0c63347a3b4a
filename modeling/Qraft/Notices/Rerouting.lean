import Qraft.Graphs.Rerouting
import Qraft.Notices.Settlement
import Qraft.Workflows.Rerouting

/-! The dispatch of a task's own hook as a procedure, and with it the routing of every kind of
attempt: to run it again after it came to its end changes nothing. -/
namespace Qraft

namespace Notifying

/-- `HookDispatcher.dispatch`, with an enqueue that succeeds. -/
def routing (sync : Bool) (t : QraftTask) (success : Bool) : Procedure Notifying Bool Unit where
  enter _ := false
  halted ended := ended
  next _ w _ := some (w.dispatch sync true t success, true)

section
variable {sync : Bool} {limit : Nat} {w w' : Notifying} {env : Env} {e : NoticeEvent} {t : QraftTask}
  {success : Bool}

/-- The hook has its row, or there is no hook. -/
def Served (t : QraftTask) (success : Bool) (w : Notifying) : Prop :=
  t.hooked success = true → (t.id, success) ∈ w.dispatches

/-- Rows of hooks are only added, and none under `sync_hooks`. -/
theorem callHook_dispatches (w : Notifying) (sync enqueued : Bool) (task : TaskId) (success : Bool) :
    ∃ new, (w.callHook sync enqueued task success).dispatches = w.dispatches ++ new ∧
      (sync = true → new = []) := by
  unfold callHook
  split
  · split
    · exact ⟨[], (List.append_nil _).symm, fun _ => rfl⟩
    · exact ⟨[], (List.append_nil _).symm, fun _ => rfl⟩
  · rename_i hsync
    split
    · exact ⟨[], (List.append_nil _).symm, fun _ => rfl⟩
    · split
      · exact ⟨[(task, success)], rfl, fun h => absurd h hsync⟩
      · exact ⟨[], (List.append_nil _).symm, fun _ => rfl⟩

theorem dispatch_dispatches (w : Notifying) (sync enqueued : Bool) (t : QraftTask) (success : Bool) :
    ∃ new, (w.dispatch sync enqueued t success).dispatches = w.dispatches ++ new ∧
      (sync = true → new = []) := by
  unfold dispatch
  split
  · exact w.callHook_dispatches sync enqueued t.id success
  · exact ⟨[], (List.append_nil _).symm, fun _ => rfl⟩

theorem step_dispatches (h : w.step sync limit env e = some w') :
    ∃ new, w'.dispatches = w.dispatches ++ new ∧ (sync = true → new = []) := by
  cases step_notice h with
  | table | finished => exact ⟨[], (List.append_nil _).symm, fun _ => rfl⟩
  | @dispatched i enqueued x v => exact w.dispatch_dispatches sync enqueued x.1 v

/-- A dispatch leaves the row of its hook. -/
theorem dispatch_served (w : Notifying) (t : QraftTask) (success : Bool) :
    Served t success (w.dispatch false true t success) := by
  intro hooked
  rw [dispatch, if_pos hooked, callHook, if_neg Bool.false_ne_true]
  split
  · rename_i hmem
    exact hmem
  · exact List.mem_append_right _ (List.mem_singleton.mpr rfl)

/-- A hook that has its row is not dispatched again. -/
theorem dispatch_of_served (h : Served t success w) : w.dispatch false true t success = w := by
  unfold dispatch
  split
  · rename_i hooked
    rw [callHook, if_neg Bool.false_ne_true, if_pos (h hooked)]
  · rfl

/-- Dispatching a task's hook is safe to replay. -/
theorem routing_replaySafe (w : Notifying) : (routing false t success).ReplaySafe (noticeSystem false limit)
    (fun _ => True) (fun _ _ => True) w := by
  have served {w w' : Notifying} {e : NoticeEvent × Env} (hs : Served t success w)
      (h : (noticeSystem false limit).step w e = some w') : Served t success w' := by
    intro hooked
    obtain ⟨new, hnew, -⟩ := step_dispatches h
    rw [hnew]
    exact List.mem_append_left _ (hs hooked)
  have habs : (routing false t success).Absorbs (noticeSystem false limit) (fun _ => True)
      (Served t success) (fun _ _ => True) := by
    refine ⟨fun _ _ _ hs _ h => served hs h, fun _ _ => trivial, fun _ _ _ _ _ _ _ _ => trivial, ?_⟩
    intro w i ended w' ended' hs _ _ hn
    cases hn
    exact ⟨dispatch_of_served hs, trivial⟩
  apply habs.replaySafe fun w ended => ended = true → Served t success w
  · exact fun w e w' ended hg _ h hended => served (hg hended) h
  · intro w i ended w' ended' hg _ hn _
    cases hn
    exact dispatch_served w t success
  · exact fun w ended hg hhalt => hg hhalt
  · exact nofun

/-- Under `sync_hooks` no row is ever written. -/
theorem sync_dispatches {es : List (Procedure.Beside (NoticeEvent × Env) Unit)}
    {x y : Notifying × List Bool}
    (h : ((routing true t success).beside (noticeSystem true limit)).run x es = some y) :
    y.1.dispatches = x.1.dispatches := by
  induction es generalizing x with
  | nil =>
    cases h
    rfl
  | cons e es ih =>
    obtain ⟨z, hz, hrest⟩ := Option.bind_eq_some_iff.mp h
    rw [ih hrest]
    cases e with
    | own e =>
      obtain ⟨u, hu, rfl⟩ := Option.map_eq_some_iff.mp hz
      obtain ⟨new, hnew, hsync⟩ := step_dispatches hu
      rw [hnew, hsync rfl, List.append_nil]
    | enter | crash k =>
      cases hz
      rfl
    | next k i =>
      obtain ⟨ended, -, hz⟩ := Option.bind_eq_some_iff.mp hz
      split at hz
      · cases hz
      · cases hz
        obtain ⟨new, hnew, hsync⟩ := x.1.dispatch_dispatches true true t success
        have hrows : (x.1.dispatch true true t success).dispatches = x.1.dispatches := by
          rw [hnew, hsync rfl, List.append_nil]
        exact hrows

end
end Notifying

/-- Routing is safe to replay wherever its first run finds the outcome final: for a chain step, for a
member of an iter or batch, for a graph node, and for the hook of a task. Its later runs leave the
workflow, the graph with its nodes, the steps and the hook dispatches as they are, whatever happens in
between but a `run`, a `resume` or a requeue. -/
theorem replay_safe (defaults : RetryDefaults) (limit : Nat) :
    (∀ s : ChainState, (chainSystem defaults limit).Reach s → ∀ index task attempt success,
      s.life.HasOutcome task attempt success →
      (ChainState.routing defaults index task attempt success).ReplaySafe (chainSystem defaults limit)
        (fun e => e.1.interleaves = true) (ChainState.readsFinal task success) s) ∧
    (∀ (s : ParallelState) task attempt success,
      (ParallelState.routing task attempt success).ReplaySafe (parallelSystem defaults limit)
        (fun e => e.1.interleaves = true) (ParallelState.readsFinal task success) s) ∧
    (∀ w : Outbox, (outboxSystem defaults).Reach w → ∀ id s task key, w.graph? id = some s →
      s.store.task? task.id = some task → task.graphNode = some key → task.id < s.store.nextId →
      (Outbox.routing defaults id task).ReplaySafe (outboxSystem defaults)
        (fun e => e.1.interleaves = true) Outbox.readsFinal w) ∧
    (∀ (w : Notifying) t success, (Notifying.routing false t success).ReplaySafe (noticeSystem false limit)
      (fun _ => True) (fun _ _ => True) w) ∧
    ∀ t success es (w w' : Notifying) rs,
      ((Notifying.routing true t success).beside (noticeSystem true limit)).run (w, []) es = some (w', rs) →
      w'.dispatches = w.dispatches := by
  refine ⟨?_, ?_, ?_, ?_, ?_⟩
  · exact fun s hr index task attempt success ha => ChainState.routing_replaySafe hr ha
  · exact fun s task attempt success => ParallelState.routing_replaySafe s
  · exact fun w hr id s task key hs ht hkey hid => Outbox.routing_replaySafe hr hs ht hkey hid
  · exact fun w t success => w.routing_replaySafe
  · exact fun t success es w w' rs hrun => Notifying.sync_dispatches hrun

/-- The first of two steps succeeds, and its routing is due. -/
def firstStepDone : List (ChainEvent × Env) := [
  ChainState.clock 1 (.load [ChainState.plainStep, ChainState.plainStep]),
  ChainState.clock 1 (.run 0 none),
  ChainState.clock 2 (.table (.saveResult { id := 2, success := true, stopped := 2 })),
  ChainState.clock 2 (.table (.handleResult 0))]

/-- A replay of the first step's routing, with the completion of the second in between. -/
def replayedStep : List (Procedure.Beside (ChainEvent × Env) (Option QraftError × Env)) := [
  .enter,
  .own (ChainState.clock 4 (.table (.saveResult { id := 6, success := true, stopped := 4 }))),
  .own (ChainState.clock 4 (.table (.handleResult 1))),
  .next 0 (none, { now := 5 }),
  .own (ChainState.clock 6 (.route 1 1)),
  .own (ChainState.clock 6 (.handle 0)),
  .own (ChainState.clock 6 (.stepSuccess 0 none)),
  .next 0 (none, { now := 7 })]

/-- The task of a graph's only node, reported succeeded. -/
def sentTask : QraftTask where
  id := 0
  status := .succeeded
  func := "app.send"
  graphId := some 0
  graphNode := some "send"
  dateUpdated := 1

def soloPlan : GraphPlan where
  nodes := [{ key := "send", func := "app.send", recovery := .manual }]

theorem replay_safe_runs :
    (∃ s t u : ChainState, (chainSystem {} 1).Reach s ∧
      (ChainState.routing {} 0 0 1 true).Ends (chainSystem {} 1) (fun e => e.1.interleaves = true)
        (ChainState.readsFinal 0 true) s .bound t ∧
      (chainSystem {} 1).run t (Procedure.own replayedStep) = some u ∧
      (∃ rs, ((ChainState.routing {} 0 0 1 true).beside (chainSystem {} 1)).run (t, []) replayedStep =
        some (u, rs)) ∧ u.chain.status = .succeeded) ∧
    ∃ (w v u : Outbox) (task : QraftTask), (outboxSystem {}).Reach w ∧
      (Outbox.routing {} 0 task).Ends (outboxSystem {}) (fun e => e.1.interleaves = true)
        Outbox.readsFinal w (some .succeeded) v ∧ (outboxSystem {}).run v [] = some u ∧
      ∃ rs, ((Outbox.routing {} 0 task).beside (outboxSystem {})).run (v, []) [.enter, .next 0 5] =
        some (u, rs) := by
  constructor
  · obtain ⟨s, hr, hp⟩ := StepSystem.exists_reach_of_run (chainSystem {} 1) firstStepDone
      (.init (ChainState.created_init {} 1))
      (fun s => ((s.life.store.task? 0).any fun t => (t.attempt? 1).any fun a => a.success = some true) ∧
        ((ChainState.routing {} 0 0 1 true).next (none, { now := 3 }) s .bound).any fun x =>
          ((ChainState.routing {} 0 0 1 true).next (none, { now := 3 }) x.1 x.2).any fun y =>
            ((ChainState.routing {} 0 0 1 true).halted x.2 = false ∧
              (ChainState.routing {} 0 0 1 true).halted y.2 = true ∧
              s.chain.boundTask 0 = some 0) ∧
            (((ChainState.routing {} 0 0 1 true).beside (chainSystem {} 1)).run (y.1, []) replayedStep).any
              fun z => z.1.chain.status = .succeeded) (by decide)
    obtain ⟨hout, hp⟩ := of_decide_eq_true hp
    obtain ⟨task, ht, hout⟩ := (Option.any_eq_true _ _).mp hout
    obtain ⟨a, ha, hs⟩ := (Option.any_eq_true _ _).mp hout
    obtain ⟨⟨s₁, r₁⟩, h₁, hp⟩ := (Option.any_eq_true _ _).mp hp
    obtain ⟨⟨t, r₂⟩, h₂, hp⟩ := (Option.any_eq_true _ _).mp hp
    obtain ⟨⟨hopen, hhalt, hbound⟩, hp⟩ := of_decide_eq_true hp
    obtain ⟨⟨u, rs⟩, hrun, hst⟩ := (Option.any_eq_true _ _).mp hp
    have hends : (ChainState.routing {} 0 0 1 true).Ends (chainSystem {} 1)
        (fun e => e.1.interleaves = true) (ChainState.readsFinal 0 true) s .bound t :=
      .next rfl (fun _ => .inl rfl) h₁ (.next hopen (fun _ => .inl rfl) h₂ (.halted hhalt))
    have henter : (ChainState.routing {} 0 0 1 true).enter s = .bound := if_pos hbound
    have hown : ∀ e ∈ Procedure.own replayedStep, e.1.interleaves = true := by decide
    refine ⟨s, t, u, hr, hends, ?_, ⟨rs, hrun⟩, of_decide_eq_true hst⟩
    rw [← henter] at hends
    exact (replay_safe {} 1).1 s hr 0 0 1 true ⟨task, a, ht, ha, of_decide_eq_true hs⟩ t hends replayedStep
      hown u rs hrun
  · obtain ⟨w, hr, hp⟩ := StepSystem.exists_reach_of_run (outboxSystem {})
      [(.start soloPlan, 0), (.tasks 0 [sentTask], 1)] (.init rfl)
      (fun w => (w.graph? 0).any fun s => (s.store.task? 0).any fun task =>
        (task.graphNode = some "send" ∧ 0 < s.store.nextId ∧
          (Outbox.routing {} 0 task).enter w = some .succeeded) ∧
        ((Outbox.routing {} 0 task).next 2 w (some .succeeded)).any fun x => x.2 = none ∧
          (((Outbox.routing {} 0 task).beside (outboxSystem {})).run (x.1, []) [.enter, .next 0 5]).isSome)
      (by decide)
    obtain ⟨s, hs, hp⟩ := (Option.any_eq_true _ _).mp hp
    obtain ⟨task, ht, hp⟩ := (Option.any_eq_true _ _).mp hp
    obtain ⟨⟨hkey, hid, henter⟩, hp⟩ := of_decide_eq_true hp
    obtain ⟨⟨v, status⟩, hnext, hp⟩ := (Option.any_eq_true _ _).mp hp
    obtain ⟨rfl, hrun⟩ := of_decide_eq_true hp
    obtain ⟨⟨u, rs⟩, hrun⟩ := Option.isSome_iff_exists.mp hrun
    have htask : task.id = 0 := (TaskStore.task?_eq_some ht).2
    have hends : (Outbox.routing {} 0 task).Ends (outboxSystem {}) (fun e => e.1.interleaves = true)
        Outbox.readsFinal w (some .succeeded) v := by
      refine .next rfl ?_ hnext (.halted rfl)
      rintro st ⟨⟩
      exact nofun
    refine ⟨w, v, u, task, hr, hends, ?_, rs, hrun⟩
    rw [← htask] at ht hid
    rw [← henter] at hends
    exact (replay_safe {} 1).2.2.1 w hr 0 s task "send" hs ht hkey hid v hends [.enter, .next 0 5]
      (fun e he => absurd he List.not_mem_nil) u rs hrun

/-- The first attempt of one of two members fails, and its retry is scheduled. -/
def triedOnce : List (ParallelEvent × Env) := [
  ParallelState.clock 1 (.load [
    { func := "app.work", options := { retry := some {
        maxAttempts := some 2, baseDelay := some 0, backoffStrategy := some "fixed", jitter := some false,
        jitterMax := some 0 } } },
    { func := "app.rest" }]),
  ParallelState.clock 1 (.run 0 none),
  ParallelState.clock 2 (.table (.saveResult { id := 2, success := false, stopped := 2 })),
  ParallelState.clock 2 (.table (.handleResult 0))]

/-- The second attempt fails and is counted; the first attempt is routed again after that. -/
def retryFails : List (Procedure.Beside (ParallelEvent × Env) (Bool × Env)) := [
  .own (ParallelState.clock 3 (.table (.claimAndEnqueue 0 6 3))),
  .own (ParallelState.clock 4 (.table (.saveResult { id := 7, success := false, stopped := 4 }))),
  .own (ParallelState.clock 4 (.table (.handleResult 1))),
  .own (ParallelState.clock 5 (.route 0)),
  .own (ParallelState.clock 5 (.handle 0)),
  .own (ParallelState.clock 5 (.increment 0)),
  .enter,
  .next 0 (false, { now := 6 }),
  .next 0 (false, { now := 6 })]

/-- A failure whose retry is scheduled is not final: routed once it does nothing, and routed again
after the last attempt was counted it is counted too. -/
theorem absorbed_counted_again : ∃ s : ParallelState, (parallelSystem {} 1).Reach s ∧
    s.life.HasOutcome 0 1 false ∧
    ¬ (ParallelState.routing 0 1 false).ReplaySafe (parallelSystem {} 1) (fun e => e.1.interleaves = true)
      (fun _ _ => True) s := by
  obtain ⟨s, hr, hp⟩ := StepSystem.exists_reach_of_run (parallelSystem {} 1) triedOnce
    (.init (ParallelState.created_init {} 1))
    (fun s => ((s.life.store.task? 0).any fun t => (t.attempt? 1).any fun a => a.success = some false) ∧
      s.isTaskTerminal { task := 0, attempt := 1, success := false, phase := .handed } = false ∧
      ((parallelSystem {} 1).run s (Procedure.own retryFails)).any (fun t => t.model.completedCount = 1) ∧
      (((ParallelState.routing 0 1 false).beside (parallelSystem {} 1)).run (s, []) retryFails).any fun x =>
        x.1.model.completedCount = 2) (by decide)
  obtain ⟨hout, hopen, hplain, hreplayed⟩ := of_decide_eq_true hp
  obtain ⟨task, ht, hout⟩ := (Option.any_eq_true _ _).mp hout
  obtain ⟨a, ha, hs⟩ := (Option.any_eq_true _ _).mp hout
  obtain ⟨t, hrun, hone⟩ := (Option.any_eq_true _ _).mp hplain
  obtain ⟨⟨u, rs⟩, hbeside, htwo⟩ := (Option.any_eq_true _ _).mp hreplayed
  refine ⟨s, hr, ⟨task, a, ht, ha, of_decide_eq_true hs⟩, ?_⟩
  intro hsafe
  have hnext : (ParallelState.routing 0 1 false).next (false, { now := 3 }) s .handed = some (s, .returned) := by
    simp only [ParallelState.routing, ParallelState.transaction, hopen, Bool.false_eq_true, if_false]
  have hown : ∀ e ∈ Procedure.own retryFails, e.1.interleaves = true := by decide
  have hsame := hsafe s (.next rfl trivial hnext (.halted rfl)) retryFails hown u rs hbeside
  obtain rfl := Option.some.inj (hrun.symm.trans hsame)
  exact absurd ((of_decide_eq_true hone).symm.trans (of_decide_eq_true htwo)) (by decide)

end Qraft
