import Qraft.Foundations.Progress
import Qraft.Graphs.Evaluation
import Qraft.Usage.Aggregate

/-! A graph can be brought to its end: from every state of a run, the completions of the tasks it has
running and the decisions at its gates settle it, in a number of calls its plan bounds, if only the
usage that goes into its summary has a sum. -/
namespace Qraft
namespace GraphState
open NodeTable StepSystem

/-- A node whose retry options make a policy, if they are given at all. -/
def Dispatchable (conf : RetryDefaults) (n : QraftGraphNode) : Prop :=
  ∃ policy, RetryPolicy.fromOptions conf n.options.retry = .ok policy

section Returns
variable {conf : RetryDefaults} {now : Time} {s : GraphState} {node : QraftGraphNode}

theorem dispatchNode_returns_iff (s : GraphState) (node : QraftGraphNode) :
    (∃ t, dispatchNode conf now s node = .ok t) ↔ Dispatchable conf node := by
  constructor
  · rintro ⟨t, h⟩
    obtain ⟨policy, hpolicy, -⟩ := Transaction.bind_eq_ok.mp h
    exact ⟨policy, hpolicy⟩
  · rintro ⟨policy, hpolicy⟩
    unfold dispatchNode
    rw [hpolicy]
    -- A new task has no attempt, so the first number is free.
    exact ⟨_, rfl⟩

theorem dispatchOrPark_returns_iff (s : GraphState) (node : QraftGraphNode) :
    (∃ t, dispatchOrPark conf now s node = .ok t) ↔
      (node.requiresApproval = false → Dispatchable conf node) := by
  unfold dispatchOrPark
  split
  · rename_i hgate
    simp [hgate]
  · rename_i hgate
    rw [dispatchNode_returns_iff]
    simp [hgate]

/-- The frontier loop raises exactly when a ready node that no gate stops has retry options that make
no policy. -/
theorem dispatchFrontier_returns_iff (s : GraphState) :
    (∃ t, dispatchFrontier conf now s = .ok t) ↔
      (s.graph.status = .running →
        ∀ n ∈ s.nodes.readyNodes, n.requiresApproval = false → Dispatchable conf n) := by
  unfold dispatchFrontier
  split
  · rename_i hr
    simp [hr]
  · rename_i hr
    rw [Transaction.foldlM_returns_iff fun s n _ => dispatchOrPark_returns_iff s n]
    simp [not_not.mp hr]

theorem dispatchFrontier_returns (h : ∀ n ∈ s.nodes, Dispatchable conf n) :
    ∃ t, dispatchFrontier conf now s = .ok t :=
  (dispatchFrontier_returns_iff s).mpr fun _ n hn _ => h n (mem_readyNodes.mp hn).1

theorem dispatchable_of_spec {nodes nodes' : NodeTable}
    (hspec : nodes'.map QraftGraphNode.spec = nodes.map QraftGraphNode.spec)
    (h : ∀ n ∈ nodes, Dispatchable conf n) : ∀ n ∈ nodes', Dispatchable conf n := by
  intro n' hn'
  have hmem : n'.spec ∈ nodes.map QraftGraphNode.spec := hspec ▸ List.mem_map_of_mem hn'
  obtain ⟨n, hn, he⟩ := List.mem_map.mp hmem
  have hoptions : n.options = n'.options := congrArg NodeSpec.options he
  rw [Dispatchable, ← hoptions]
  exact h n hn

end Returns

def distance (n : QraftGraphNode) : Nat :=
  match n.status with
  | .pending => 3
  | .waitingApproval => 2
  | .running => 1
  | .succeeded | .failed | .cancelled | .skipped => 0

/-- How far the nodes of a graph are from their ends, taken together. -/
def remaining (s : GraphState) : Nat := (s.nodes.map distance).sum

/-- A report of a task that runs, or a decision on a gate that waits, as told. -/
def Answers (v : Verdicts) (s : GraphState) (e : GraphEvent × Time) : Prop :=
  match e.1 with
  | .completion task => ∃ n ∈ s.nodes, n.status = .running ∧ task.graphNode = some n.key ∧
      n.task = some task.id ∧ taskOutcome task.status = some (v.status n)
  | .approve key => ∃ n ∈ s.nodes, n.status = .waitingApproval ∧ n.key = key ∧ v.status n ≠ .cancelled
  | .reject key _ => ∃ n ∈ s.nodes, n.status = .waitingApproval ∧ n.key = key ∧ v.status n = .cancelled
  | .skip .. | .resume _ | .cancel => False

/-- Whether a call settled the graph, a resumed one perhaps at once. -/
def settles (s t : GraphState) : Bool :=
  t.graph.settledAt.isSome && (s.graph.settledAt.isNone || t.graph.generation ≠ s.graph.generation)

/-- One graph of this plan, with the usages that `build_summary` has summed in a call that settles it.
Where they have no sum, the call is rolled back. -/
def summarySystem (conf : RetryDefaults) (plan : GraphPlan) (resolver : Option StaticTablePricing) :
    StepSystem GraphState ((GraphEvent × Time) × List Usage) where
  init := (plannedSystem conf plan).init
  step s e := ((graphSystem conf).step s e.1).filter fun t => !s.settles t || (sumUsage resolver e.2).isSome

section Progress
variable {conf : RetryDefaults} {now : Time} {v : Verdicts} {s t : GraphState} {n : QraftGraphNode}

theorem Answers.follows {e : GraphEvent × Time} (hv : s.Valid) (h : Answers v s e) : Follows v s e := by
  have hsame {n m : QraftGraphNode} (hn : n ∈ s.nodes) (hm : m ∈ s.nodes) (hk : m.key = n.key) : m = n :=
    hv.nodes.eq_of_key hm hn hk
  obtain ⟨e, now⟩ := e
  cases e with
  | completion task =>
    obtain ⟨n, hn, -, hkey, -, hout⟩ := h
    intro m hm hk _ _ outcome ho
    rw [hsame hn hm (Option.some.inj (hk.symm.trans hkey))]
    exact Option.some.inj (Eq.trans (Eq.symm ho) hout)
  | approve key =>
    obtain ⟨n, hn, -, hkey, hverdict⟩ := h
    intro m hm hk
    rw [hsame hn hm (hk.trans hkey.symm)]
    exact hverdict
  | reject key reason =>
    obtain ⟨n, hn, -, hkey, hverdict⟩ := h
    intro m hm hk
    rw [hsame hn hm (hk.trans hkey.symm)]
    exact hverdict
  | skip | resume | cancel => exact absurd h id

theorem remaining_le (s : GraphState) : s.remaining ≤ 3 * s.nodes.length := by
  apply Rows.sum_le_length
  intro n _
  unfold distance
  split <;> decide

theorem distance_pending (h : n.status = .pending) : distance n = 3 := by simp [distance, h]

theorem dispatchFrontier_remaining (hc : Consistent s.nodes) (h : dispatchFrontier conf now s = .ok t) :
    t.remaining ≤ s.remaining := by
  apply dispatchFrontier_invariant (fun t => t.remaining ≤ s.remaining) _ hc (Nat.le_refl _) h
  intro u node u' _ _ hu hturn
  refine Nat.le_trans ?_ hu
  rcases dispatchOrPark_cases hturn with rfl | ⟨task, -, rfl⟩
  · apply Rows.sum_updateWhere_le
    intro n _ hp
    simp only [Bool.and_eq_true, decide_eq_true_eq] at hp
    rw [distance_pending hp.2]
    simp [distance, park]
  · apply Rows.sum_updateWhere_le
    intro n _ hp
    simp only [Bool.and_eq_true, decide_eq_true_eq] at hp
    rw [distance_pending hp.2]
    simp [distance, bindTask]

/-- A node's task once it has ended as the verdict on its node says. -/
def endedTask (v : Verdicts) (n : QraftGraphNode) (id : TaskId) : QraftTask where
  id := id
  status := if v.status n = .succeeded then .succeeded else .failed
  func := n.func
  graphNode := some n.key
  dateUpdated := 0

theorem taskOutcome_endedTask (h : v.status n ≠ .cancelled) (id : TaskId) :
    taskOutcome (endedTask v n id).status = some (v.status n) := by
  unfold endedTask
  unfold Verdicts.status at h ⊢
  split
  · rename_i hgate
    simp [hgate] at h
  · split <;> rfl

/-- The first completion of the task a node is bound to, in a graph that runs. -/
theorem handleNodeCompletion_eq {task : QraftTask} {outcome : NodeStatus} (hv : s.Valid)
    (hr : s.graph.status = .running) (hn : n ∈ s.nodes) (hkey : task.graphNode = some n.key)
    (hout : taskOutcome task.status = some outcome) (hbound : n.task = some task.id) (hopen : n.settledAt = none)
    (ht : dispatchFrontier conf now { s.updateNodes (fun m => m.key = n.key && m.settledAt = none)
        (recordOutcome outcome now) with
      journal := s.journal ++ [.outcomeRecorded n.key n.generation task.id outcome] } = .ok t) :
    s.handleNodeCompletion conf task now = .ok (t.maybeSettle now) := by
  have hfound : s.nodes.node? n.key = some n := Rows.get?_of_mem hv.nodes.nodup hn
  unfold handleNodeCompletion
  rw [hkey, hout]
  simp only [hfound, hbound, hopen, ne_eq, not_true_eq_false, or_self, if_false, hr, if_true, ht]
  rfl

/-- The completion of a running node's task is accepted and brings the graph nearer its end. -/
theorem completion_progress (hv : s.Valid) (hr : s.graph.status = .running) (hc : ∀ n ∈ s.nodes, OnCourse v n)
    (hd : ∀ n ∈ s.nodes, Dispatchable conf n) (hn : n ∈ s.nodes) (hrun : n.status = .running) :
    ∃ e t, Answers v s (e, now) ∧ (graphSystem conf).step s (e, now) = some t ∧ t.remaining < s.remaining := by
  have hrow := hv.nodes.rows n hn
  obtain ⟨id, hid⟩ := Option.ne_none_iff_exists'.mp (hrow.bound.mpr (.inl hrun))
  have hopen : n.settledAt = none := hrow.open_iff.mpr (.inr (.inl hrun))
  have hout := taskOutcome_endedTask ((hc n hn).running hrun) id
  have hrec := consistent_recordOutcome hv.nodes hn hrun (taskOutcome_cases hout) now
  have hsel : ∀ m ∈ s.nodes, m.key = n.key → m = n := fun m hm hk => hv.nodes.eq_of_key hm hn hk
  obtain ⟨t, ht⟩ := @dispatchFrontier_returns conf now
    ({ s.updateNodes (fun m => m.key = n.key && m.settledAt = none) (recordOutcome (v.status n) now) with
      journal := s.journal ++ [.outcomeRecorded n.key n.generation id (v.status n)] })
    (dispatchable_of_spec (spec_updateWhere fun _ => rfl) hd)
  have hcall := @handleNodeCompletion_eq conf now s t n (endedTask v n id) _ hv hr hn rfl hout hid hopen ht
  refine ⟨.completion (endedTask v n id), (t.maybeSettle now).1, ?_, ?_, ?_⟩
  · exact ⟨n, hn, hrun, rfl, hid, hout⟩
  · exact Option.map_eq_some_iff.mpr ⟨_, Transaction.toOption_eq_some.mpr hcall, rfl⟩
  · rw [remaining, maybeSettle_nodes]
    refine Nat.lt_of_le_of_lt (dispatchFrontier_remaining hrec ht) ?_
    have hzero : distance (recordOutcome (v.status n) now n) = 0 := by
      rcases taskOutcome_cases hout with ho | ho <;> simp [distance, recordOutcome, ho]
    refine Rows.sum_updateWhere_lt ?_ hn (by simp [hopen]) ?_
    · intro m hm hp
      simp only [Bool.and_eq_true, decide_eq_true_eq] at hp
      rw [hsel m hm hp.1, hzero]
      exact Nat.zero_le _
    · rw [hzero]
      simp [distance, hrun]

theorem parkedNode_eq (hv : s.Valid) (hlive : ¬ s.graph.status.Terminal) (hn : n ∈ s.nodes)
    (hw : n.status = .waitingApproval) : s.parkedNode n.key = .ok n := by
  have hfound : s.nodes.node? n.key = some n := Rows.get?_of_mem hv.nodes.nodup hn
  unfold parkedNode
  rw [if_neg (not_not.mpr ((live_iff_not_terminal _).mp hlive)), hfound]
  simp [hw]

/-- Released and dispatched at once, a parked row is written as by one update. -/
theorem release_bindTask {nodes : NodeTable} (id : TaskId) (now : Time) :
    Rows.updateWhere (fun m => m.key = n.key && m.status = .pending) (bindTask id now)
        (Rows.updateWhere (fun m => m.key = n.key) release nodes) =
      Rows.updateWhere (fun m => m.key = n.key) (fun m => bindTask id now (release m)) nodes := by
  simp only [Rows.updateWhere, List.map_map]
  apply List.map_congr_left
  intro m _
  by_cases hk : m.key = n.key
  · simp [hk, release]
  · simp [hk]

/-- A parked node's approval is accepted and brings the graph nearer its end. -/
theorem approve_progress (hv : s.Valid) (hlive : ¬ s.graph.status.Terminal)
    (hd : ∀ n ∈ s.nodes, Dispatchable conf n) (hn : n ∈ s.nodes) (hw : n.status = .waitingApproval)
    (hverdict : v.status n ≠ .cancelled) :
    ∃ e t, Answers v s (e, now) ∧ (graphSystem conf).step s (e, now) = some t ∧ t.remaining < s.remaining := by
  have hsel : ∀ m ∈ s.nodes, m.key = n.key → m = n := fun m hm hk => hv.nodes.eq_of_key hm hn hk
  obtain ⟨u, hu⟩ := (@dispatchNode_returns_iff conf now
    (s.updateNodes (fun m => m.key = n.key) release) (release n)).mpr (hd n hn)
  have hcall : ∃ t, s.approve conf n.key now = .ok t := by
    unfold approve
    rw [parkedNode_eq hv hlive hn hw]
    simp only [bind, Except.bind, hu]
    split
    · exact ⟨_, rfl⟩
    · exact ⟨_, rfl⟩
  obtain ⟨t, ht⟩ := hcall
  refine ⟨.approve n.key, t, ⟨n, hn, hw, rfl, hverdict⟩, ?_, ?_⟩
  · refine Option.map_eq_some_iff.mpr ⟨(t, none), Transaction.toOption_eq_some.mpr ?_, rfl⟩
    exact Transaction.map_eq_ok.mpr ⟨t, ht, rfl⟩
  · obtain ⟨node, task, -, hnode, hk, -, -, date, rfl⟩ := approve_ok ht
    have hsame := hsel node hnode hk
    subst hsame
    have hrows := @release_bindTask node s.nodes s.store.nextId now
    simp only [remaining, afterDispatch, updateNodes]
    refine lt_of_eq_of_lt (congrArg (fun nodes => (nodes.map distance).sum) hrows) ?_
    refine Rows.sum_updateWhere_lt ?_ hn (by simp) ?_
    · intro m hm hp
      rw [hsel m hm (by simpa using hp)]
      simp [distance, bindTask, hw]
    · simp [distance, bindTask, hw]

/-- A parked node's rejection is accepted and brings the graph nearer its end. -/
theorem reject_progress (hv : s.Valid) (hlive : ¬ s.graph.status.Terminal) (hn : n ∈ s.nodes)
    (hw : n.status = .waitingApproval) (hverdict : v.status n = .cancelled) :
    ∃ e t, Answers v s (e, now) ∧ (graphSystem conf).step s (e, now) = some t ∧ t.remaining < s.remaining := by
  have hsel : ∀ m ∈ s.nodes, m.key = n.key → m = n := fun m hm hk => hv.nodes.eq_of_key hm hn hk
  have hcall : ∃ r, s.reject n.key none now = .ok r := by
    unfold reject
    rw [parkedNode_eq hv hlive hn hw]
    simp only [bind, Except.bind]
    split
    · exact ⟨_, rfl⟩
    · exact ⟨_, rfl⟩
  obtain ⟨r, hr⟩ := hcall
  refine ⟨.reject n.key none, r.1, ⟨n, hn, hw, rfl, hverdict⟩, ?_, ?_⟩
  · exact Option.map_eq_some_iff.mpr ⟨r, Transaction.toOption_eq_some.mpr hr, rfl⟩
  · obtain ⟨node, -, hnode, hk, -, rfl⟩ := reject_ok hr
    rw [remaining, maybeSettle_nodes]
    refine Rows.sum_updateWhere_lt ?_ hn (by simp) ?_
    · intro m hm hp
      rw [hsel m hm (by simpa using hp)]
      simp [distance, rejectNode]
    · simp [distance, rejectNode, hw]

/-- A graph that has not settled has a task that runs or a gate that waits, and its next report or
decision is accepted. -/
theorem progress (now : Time) (hv : s.Valid) (hc : ∀ n ∈ s.nodes, OnCourse v n)
    (hd : ∀ n ∈ s.nodes, Dispatchable conf n) (ht : ¬ s.graph.status.Terminal) :
    ∃ e t, Answers v s (e, now) ∧ (graphSystem conf).step s (e, now) = some t ∧ t.remaining < s.remaining := by
  have hagrees := hv.status
  rcases (live_iff_not_terminal _).mp ht with hr | hw
  · rw [hr] at hagrees
    obtain ⟨n, hn, hs⟩ := hagrees
    exact completion_progress hv hr hc hd hn hs
  · rw [hw] at hagrees
    obtain ⟨n, hn, hs⟩ := hagrees.1
    by_cases hverdict : v.status n = .cancelled
    · exact reject_progress hv ht hn hs hverdict
    · exact approve_progress hv ht hd hn hs hverdict

section Summary
variable {plan : GraphPlan} {resolver : Option StaticTablePricing} {usages : List Usage}

/-- A rolled back settlement leaves no trace: such runs reach what runs of the graph alone do. -/
theorem summarised_iff {P : GraphState → GraphEvent × Time → Prop} :
    (summarySystem conf plan resolver).ReachWhen (fun s e => P s e.1) s ↔
      (plannedSystem conf plan).ReachWhen P s := by
  constructor
  · intro h
    induction h with
    | init h => exact .init h
    | step _ hp hs ih => exact .step ih hp (Option.filter_eq_some_iff.mp hs).1
  · intro h
    induction h with
    | init h => exact .init h
    | @step s t e _ hp hs ih =>
      have hsum : (sumUsage resolver []).isSome = true := rfl
      apply ReachWhen.step (e := (e, [])) ih hp
      exact Option.filter_eq_some_iff.mpr ⟨hs, by rw [hsum, Bool.or_true]⟩

/-- As long as the usage has no sum, a graph stays unsettled. -/
theorem unsettled_of_no_sum {k : Nat} (hno : sumUsage resolver usages = none)
    (h : PathIn (summarySystem conf plan resolver) (fun s e => Answers v s e.1 ∧ e.2 = usages) s k t)
    (hv : s.Valid) (hs : s.graph.settledAt = none) : t.Valid ∧ t.graph.settledAt = none := by
  induction h with
  | refl => exact ⟨hv, hs⟩
  | head hp hstep _ ih =>
    obtain ⟨hu, hkept⟩ := Option.filter_eq_some_iff.mp hstep
    obtain ⟨g, hcall⟩ := graphSystem_step hu
    apply ih (call_valid hv hcall)
    simpa [settles, hs, hp.2, hno] using hkept

/-- Whatever a run has done, reports of tasks that run and decisions on gates that wait can go on to
settle the graph, with at most three calls for each node of the plan, if and only if the usage read
for its summary has a sum. -/
theorem can_settle (h : (summarySystem conf plan resolver).ReachWhen (fun s e => Follows v s e.1) s)
    (hd : ∀ spec ∈ plan.nodes, ∃ policy, RetryPolicy.fromOptions conf spec.options.retry = .ok policy)
    (usages : List Usage) :
    (∃ k t, k ≤ 3 * plan.nodes.length ∧
      PathIn (summarySystem conf plan resolver) (fun s e => Answers v s e.1 ∧ e.2 = usages) s k t ∧
      t.graph.status.Terminal) ↔ s.graph.status.Terminal ∨ (sumUsage resolver usages).isSome = true := by
  have hplan := summarised_iff.mp h
  have hvalid := reach_valid (planned hplan).reach
  constructor
  · rintro ⟨k, t, -, hpath, hsettled⟩
    by_contra hne
    obtain ⟨hlive, hno⟩ := not_or.mp hne
    have hopen := hvalid.settled.mpr hlive
    obtain ⟨hv, hnone⟩ := unsettled_of_no_sum (Option.not_isSome_iff_eq_none.mp hno) hpath hvalid hopen
    exact hv.settled.mp hnone hsettled
  · rintro (hsettled | hsum)
    · exact ⟨0, s, Nat.zero_le _, .refl, hsettled⟩
    have hlen : s.nodes.length = plan.nodes.length := by
      simpa using congrArg List.length (planned_spec hplan)
    have hdispatch : ∀ n ∈ s.nodes, Dispatchable conf n := by
      intro n hn
      exact hd n.spec (planned_spec hplan ▸ List.mem_map_of_mem hn)
    have hstep : ∀ s, ((graphSystem conf).ReachWhen (Follows v) s ∧ ∀ n ∈ s.nodes, Dispatchable conf n) →
        ¬ s.graph.status.Terminal → ∃ e t, (Answers v s e.1 ∧ e.2 = usages) ∧
          (summarySystem conf plan resolver).step s e = some t ∧
          ((graphSystem conf).ReachWhen (Follows v) t ∧ ∀ n ∈ t.nodes, Dispatchable conf n) ∧
          t.remaining < s.remaining := by
      rintro s ⟨hs, hd⟩ hlive
      have hv := reach_valid hs.reach
      obtain ⟨e, t, ha, hstep, hlt⟩ := progress 0 hv (follows_onCourse hs) hd hlive
      obtain ⟨g, hg⟩ := graphSystem_step hstep
      refine ⟨((e, 0), usages), t, ⟨ha, rfl⟩, ?_, ?_, hlt⟩
      · exact Option.filter_eq_some_iff.mpr ⟨hstep, by rw [hsum, Bool.or_true]⟩
      · exact ⟨.step hs (ha.follows hv) hstep, dispatchable_of_spec (call_spec hv hg) hd⟩
    obtain ⟨k, t, hk, hpath, -, hsettled⟩ :=
      exists_pathIn_of_rank _ _ remaining hstep ⟨planned hplan, hdispatch⟩
    have hbound := remaining_le s
    exact ⟨k, t, by omega, hpath, hsettled⟩

def tokenCounts : List Usage := [[("tokens", .int 3)], [("tokens", .int 4)]]

theorem can_settle_diamond : ∃ s k t,
    (summarySystem {} diamond none).ReachWhen (fun s e => Follows lastFails s e.1) s ∧
    s.graph.status = .waitingApproval ∧ k ≤ 12 ∧
    PathIn (summarySystem {} diamond none) (fun s e => Answers lastFails s e.1 ∧ e.2 = tokenCounts) s k t ∧
    t.graph.status.Terminal := by
  obtain ⟨s, hs, hp⟩ := exists_followed {} diamond lastFails
    [(report 0 "root" .succeeded, 1), (report 2 "plain" .succeeded, 2)]
    (fun s => s.graph.status = .waitingApproval) (by decide +kernel)
  simp only [decide_eq_true_eq] at hp
  have hplain : ∀ spec ∈ diamond.nodes, spec.options.retry = none := by decide
  have hreach := (@summarised_iff {} s diamond none (Follows lastFails)).mpr hs
  obtain ⟨k, t, hk, hpath, ht⟩ := (can_settle hreach
    (fun spec hspec => ⟨none, by rw [hplain spec hspec]; rfl⟩) tokenCounts).mpr (.inr (by decide +kernel))
  exact ⟨s, k, t, hreach, hp, hk, hpath, ht⟩

end Summary

end Progress

end GraphState
end Qraft
