import Qraft.Foundations.StepSystem
import Qraft.Graphs.Status

/-! Runs of one graph: any order of completions, duplicate and superseded ones included,
and of operator calls, each one transaction under the graph row's lock. -/
namespace Qraft

/-- A call that takes the graph row's lock. -/
inductive GraphEvent where
  /-- `handle_node_completion` with the task instance its caller holds. -/
  | completion (task : QraftTask)
  | skip (key : String) (reason : Option String)
  | cancel
  | approve (key : String)
  | reject (key : String) (reason : Option String)
  | resume (nodes : Option (List String))

namespace GraphState
open NodeTable

/-- The transaction of a call, with the settled graph its caller goes on to announce. -/
def call (conf : RetryDefaults) (now : Time) (s : GraphState) :
    GraphEvent → Except QraftError (GraphState × Option QraftGraph)
  | .completion task => s.handleNodeCompletion conf task now
  | .skip key reason => s.skip conf key reason now
  | .cancel => s.cancel now
  | .approve key => (·, none) <$> s.approve conf key now
  | .reject key reason => s.reject key reason now
  | .resume nodes => (·.1, none) <$> s.resume conf nodes now

/-- One graph from `Graph.start` on. A refused call rolls back and is no step. -/
def graphSystem (conf : RetryDefaults) : StepSystem GraphState (GraphEvent × Time) where
  init s := ∃ plan id now, start conf plan id now = .ok s
  step s e := (s.call conf e.2 e.1).toOption.map (·.1)

theorem graphSystem_step {conf : RetryDefaults} {s s' : GraphState} {e : GraphEvent × Time}
    (h : (graphSystem conf).step s e = some s') : ∃ g, s.call conf e.2 e.1 = .ok (s', g) := by
  simp only [graphSystem, Option.map_eq_some_iff] at h
  obtain ⟨r, hr, rfl⟩ := h
  exact ⟨r.2, Transaction.toOption_eq_some.mp hr⟩

/-- A call is one of the six transactions. -/
theorem call_cases {conf : RetryDefaults} {now : Time} {s : GraphState} {e : GraphEvent}
    {r : GraphState × Option QraftGraph} (h : s.call conf now e = .ok r) :
    (∃ task, e = .completion task ∧ s.handleNodeCompletion conf task now = .ok r) ∨
    (∃ key reason, e = .skip key reason ∧ s.skip conf key reason now = .ok r) ∨
    (e = .cancel ∧ s.cancel now = .ok r) ∨
    (∃ key, e = .approve key ∧ r.2 = none ∧ s.approve conf key now = .ok r.1) ∨
    (∃ key reason, e = .reject key reason ∧ s.reject key reason now = .ok r) ∨
    (∃ nodes n, e = .resume nodes ∧ r.2 = none ∧ s.resume conf nodes now = .ok (r.1, n)) := by
  cases e with
  | completion task => exact .inl ⟨task, rfl, h⟩
  | skip key reason => exact .inr (.inl ⟨key, reason, rfl, h⟩)
  | cancel => exact .inr (.inr (.inl ⟨rfl, h⟩))
  | approve key =>
    obtain ⟨t, ht, rfl⟩ := Transaction.map_eq_ok.mp h
    exact .inr (.inr (.inr (.inl ⟨key, rfl, rfl, ht⟩)))
  | reject key reason => exact .inr (.inr (.inr (.inr (.inl ⟨key, reason, rfl, h⟩))))
  | resume nodes =>
    obtain ⟨t, ht, rfl⟩ := Transaction.map_eq_ok.mp h
    exact .inr (.inr (.inr (.inr (.inr ⟨nodes, t.2, rfl, rfl, ht⟩))))

theorem call_valid {conf : RetryDefaults} {now : Time} {s : GraphState} {e : GraphEvent}
    {r : GraphState × Option QraftGraph} (hv : s.Valid) (h : s.call conf now e = .ok r) :
    r.1.Valid := by
  rcases call_cases h with ⟨task, _, h⟩ | ⟨key, reason, _, h⟩ | ⟨_, h⟩ | ⟨key, _, _, h⟩ |
    ⟨key, reason, _, h⟩ | ⟨nodes, n, _, _, h⟩
  · exact handleNodeCompletion_valid hv h
  · exact skip_valid hv h
  · exact cancel_valid hv h
  · exact approve_valid hv h
  · exact reject_valid hv h
  · exact resume_valid hv h

/-- Between transactions every reachable graph is valid. -/
theorem reach_valid {conf : RetryDefaults} {s : GraphState} (h : (graphSystem conf).Reach s) :
    s.Valid := by
  apply h.invariant Valid
  · rintro s ⟨plan, id, now, hs⟩
    exact start_valid hs
  · intro s e s' hv _ hstep
    obtain ⟨g, hg⟩ := graphSystem_step hstep
    exact call_valid hv hg

def replay (conf : RetryDefaults) (plan : GraphPlan) (events : List (GraphEvent × Time)) :
    Option GraphState :=
  (start conf plan 0 0).toOption.bind fun s => (graphSystem conf).run s events

theorem exists_reach_of_replay (conf : RetryDefaults) (plan : GraphPlan)
    (events : List (GraphEvent × Time)) (p : GraphState → Bool)
    (h : (replay conf plan events).map p = some true) :
    ∃ s, (graphSystem conf).Reach s ∧ p s = true := by
  obtain ⟨s, hs, hp⟩ := Option.map_eq_some_iff.mp h
  obtain ⟨s₀, hs₀, hrun⟩ := Option.bind_eq_some_iff.mp hs
  exact ⟨s, StepSystem.reach_of_run (.init ⟨plan, 0, 0, Transaction.toOption_eq_some.mp hs₀⟩) hrun, hp⟩

/-- A node that the frontier would take up, spelled out. -/
def Ready (s : GraphState) (n : QraftGraphNode) : Prop :=
  n.status = .pending ∧
    ∀ d ∈ n.after, ∃ m ∈ s.nodes, m.key = d ∧ (m.status = .succeeded ∨ m.status = .skipped)

theorem not_ready_of_quiet {s : GraphState} (h : s.nodes.readyNodes = []) :
    ∀ n ∈ s.nodes, ¬ s.Ready n := by
  intro n hn hr
  refine readyNodes_eq_nil.mp h n hn hr.1 fun d hd => ?_
  exact depMet_iff.mpr (hr.2 d hd)

/-- The status of a graph always tells the truth about its nodes, and the search for
quiescence never falls through. -/
theorem status_truthful {conf : RetryDefaults} {s : GraphState}
    (h : (graphSystem conf).Reach s) :
    (s.graph.status = .running →
      (∃ n ∈ s.nodes, n.status = .running) ∧ ∀ n ∈ s.nodes, ¬ s.Ready n) ∧
    (s.graph.status = .waitingApproval →
      (∀ n ∈ s.nodes, n.status ≠ .running ∧ ¬ s.Ready n ∧ n.status ≠ .failed ∧
        n.status ≠ .cancelled) ∧ ∃ n ∈ s.nodes, n.status = .waitingApproval) ∧
    (s.graph.status = .failed →
      (∃ n ∈ s.nodes, n.status = .failed) ∧ ∀ n ∈ s.nodes, n.status ≠ .running ∧ ¬ s.Ready n) ∧
    (s.graph.status = .succeeded →
      ∀ n ∈ s.nodes, n.status = .succeeded ∨ n.status = .skipped) ∧
    JournalEntry.fellThrough ∉ s.journal := by
  have hv := reach_valid h
  have hagrees := hv.status
  refine ⟨?_, ?_, ?_, ?_, hv.total⟩
  · intro hs
    rw [hs] at hagrees
    exact ⟨hagrees, not_ready_of_quiet (hv.quiet (by simp [hs]))⟩
  · intro hs
    rw [hs] at hagrees
    refine ⟨fun n hn => ?_, hagrees.1⟩
    obtain ⟨hr, hf, hc⟩ := hagrees.2 n hn
    exact ⟨hr, not_ready_of_quiet (hv.quiet (by simp [hs])) n hn, hf, hc⟩
  · intro hs
    rw [hs] at hagrees
    refine ⟨hagrees.1, fun n hn => ⟨hagrees.2 n hn, ?_⟩⟩
    exact not_ready_of_quiet (hv.quiet (by simp [hs])) n hn
  · intro hs
    rw [hs] at hagrees
    exact hagrees

/-- A root with a plain and a gated branch that meet again. -/
def diamond : GraphPlan where
  nodes := [
    { key := "root", func := "app.load", recovery := .manual },
    { key := "plain", func := "app.score", after := ["root"], recovery := .idempotent },
    { key := "gated", func := "app.send", after := ["root"], recovery := .transactional,
      requiresApproval := true },
    { key := "join", func := "app.report", after := ["plain", "gated"], recovery := .manual }]

/-- The completion of the task with this id, as its worker reports it. -/
def report (id : TaskId) (key : String) (status : TaskStatus) : GraphEvent :=
  .completion { id, status, func := "app", graphId := some 0, graphNode := some key, dateUpdated := 0 }

theorem status_truthful_diamond : ∃ s, (graphSystem {}).Reach s ∧
    s.graph.status = .waitingApproval ∧ ∃ n ∈ s.nodes, n.status = .waitingApproval := by
  obtain ⟨s, hr, hs⟩ := exists_reach_of_replay {} diamond
    [(report 0 "root" .succeeded, 1), (report 2 "plain" .succeeded, 2)]
    (fun s => s.graph.status = .waitingApproval) (by decide)
  simp only [decide_eq_true_eq] at hs
  exact ⟨s, hr, hs, ((status_truthful hr).2.1 hs).2⟩

/-- After a resume every dependent of a rewound node is back to pending. -/
private theorem dependents_rewound {conf : RetryDefaults} {s : GraphState}
    {nodes : Option (List String)} {now : Time} {r : GraphState × Nat} (hv : s.Valid)
    (h : s.resume conf nodes now = .ok r) {m m' n : QraftGraphNode} (hm : m ∈ s.nodes)
    (hm' : m' ∈ r.1.nodes) (hk : m'.key = m.key) (hgen : m'.generation ≠ m.generation)
    (hn : n ∈ r.1.nodes) (hd : m.key ∈ n.after) : n.status = .pending := by
  have hv' := resume_valid hv h
  obtain ⟨rerun, t, _, hrerun, _, ht, rfl⟩ := resume_ok h
  simp only [maybeSettle_nodes] at hm' hn
  have hc := hv.consistent_rewind hrerun now
  have hrows := dispatchFrontier_rows hc ht
  have hct : Consistent t.nodes := (dispatchFrontier_ok hc ht).2.2.1
  simp only [rewind, recordSettlement_nodes] at hrows
  have hreset : m.key ∈ rerun ∧ ¬ m'.status.Met := by
    obtain ⟨m₁, hm₁, hup⟩ := hrows m' hm'
    obtain ⟨m₀, hm₀, rfl⟩ := Rows.mem_updateWhere.mp hm₁
    have hsame : m₀ = m := by
      apply hv.nodes.eq_of_key hm₀ hm
      rw [← hk]
      rcases hup with rfl | ⟨_, rfl | ⟨id, rfl⟩⟩ <;> split <;> rfl
    subst hsame
    by_cases hin : m₀.key ∈ rerun
    · refine ⟨hin, ?_⟩
      rcases hup with rfl | ⟨_, rfl | ⟨id, rfl⟩⟩ <;>
        simp [hin, resetNode, park, bindTask, NodeStatus.Met]
    · simp only [hin, decide_false, Bool.false_eq_true, if_false] at hup
      rcases hup with rfl | ⟨_, rfl | ⟨id, rfl⟩⟩ <;> exact absurd rfl hgen
  obtain ⟨n₁, hn₁, hup⟩ := hrows n hn
  obtain ⟨n₀, hn₀, rfl⟩ := Rows.mem_updateWhere.mp hn₁
  have hd₀ : m.key ∈ n₀.after := by
    rcases hup with rfl | ⟨_, rfl | ⟨id, rfl⟩⟩ <;> split at hd <;> exact hd
  have hunmet : ¬ t.nodes.depMet m.key = true := by
    intro hmet
    obtain ⟨e, he, hek, hes⟩ := depMet_iff.mp hmet
    have hsame := hct.eq_of_key he hm' (hek.trans hk.symm)
    exact hreset.2 (hsame ▸ hes)
  have hnot : ¬ n.status.Started := fun hst => hunmet (hct.deps n hn hst _ hd)
  rcases hup with rfl | ⟨_, rfl | ⟨id, rfl⟩⟩
  · by_cases hin : n₀.key ∈ rerun
    · simp [hin, resetNode]
    · by_contra hs
      simp only [hin, decide_false, Bool.false_eq_true, if_false] at hs
      exact hin (rerun_downstream hv.nodes.nodup hrerun hn₀ hs hd₀ hreset.1)
  · simp [park, NodeStatus.Started] at hnot
  · simp [bindTask, NodeStatus.Started] at hnot

/-- Every node that was dispatched, parked or settled by a task or a person has all
its dependencies succeeded or skipped, and a resume rewinds all that ran below a node
it rewinds. -/
theorem dependencies_met {conf : RetryDefaults} {s : GraphState}
    (h : (graphSystem conf).Reach s) :
    (∀ n ∈ s.nodes, n.status = .running ∨ n.status = .waitingApproval ∨ n.status = .succeeded ∨
        n.status = .failed ∨ n.status = .cancelled →
      ∀ d ∈ n.after, ∃ m ∈ s.nodes, m.key = d ∧ (m.status = .succeeded ∨ m.status = .skipped)) ∧
    ∀ nodes now r, s.resume conf nodes now = .ok r →
      ∀ m ∈ s.nodes, ∀ m' ∈ r.1.nodes, m'.key = m.key → m'.generation ≠ m.generation →
        ∀ n ∈ r.1.nodes, m.key ∈ n.after → n.status = .pending := by
  have hv := reach_valid h
  refine ⟨?_, ?_⟩
  · intro n hn hs d hd
    have hstarted : n.status.Started := by
      rcases hs with hs | hs | hs | hs | hs <;> simp [hs, NodeStatus.Started]
    exact depMet_iff.mp (hv.nodes.deps n hn hstarted d hd)
  · intro nodes now r hr m hm m' hm' hk hgen n hn hd
    exact dependents_rewound hv hr hm hm' hk hgen hn hd

theorem dependencies_met_diamond : ∃ s, (graphSystem {}).Reach s ∧
    ∃ n ∈ s.nodes, n.key = "gated" ∧ n.status = .waitingApproval ∧
      ∀ d ∈ n.after, ∃ m ∈ s.nodes, m.key = d ∧ (m.status = .succeeded ∨ m.status = .skipped) := by
  obtain ⟨s, hr, hs⟩ := exists_reach_of_replay {} diamond [(report 0 "root" .succeeded, 1)]
    (fun s => s.nodes.any fun n => n.key = "gated" && n.status = .waitingApproval) (by decide)
  obtain ⟨n, hn, hp⟩ := List.any_eq_true.mp hs
  simp only [Bool.and_eq_true, decide_eq_true_eq] at hp
  exact ⟨s, hr, n, hn, hp.1, hp.2, (dependencies_met hr).1 n hn (.inr (.inl hp.2))⟩

end GraphState
end Qraft
