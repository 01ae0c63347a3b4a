import Qraft.Graphs.Generations

/-! A cancelled graph: nothing is dispatched any more, and the nodes that ran record how their
tasks ended. -/
namespace Qraft

namespace GraphState
open NodeTable

/-- A node at its graph's cancellation and later: as it was, or run out with its own task. -/
def RunsOut (s' : GraphState) (n n' : QraftGraphNode) : Prop :=
  n' = n ∨ n.status = .running ∧ ∃ task outcome now, n.task = some task ∧
    (outcome = .succeeded ∨ outcome = .failed) ∧ n' = recordOutcome outcome now n ∧
      (n.key, n.generation, task, outcome) ∈ s'.outcomes

structure Winds (s s' : GraphState) : Prop where
  graph : s'.graph = s.graph
  settlements : s'.settlements = s.settlements
  store : s'.store = s.store
  creations : s'.creations = s.creations
  keys : (s'.nodes.map fun n => n.key) = s.nodes.map fun n => n.key
  nodes : ∀ n' ∈ s'.nodes, ∃ n ∈ s.nodes, RunsOut s' n n'

section
variable {conf : RetryDefaults} {now : Time} {s s' : GraphState} {e : GraphEvent}

theorem Winds.refl (s : GraphState) : Winds s s :=
  ⟨rfl, rfl, rfl, rfl, rfl, fun n hn => ⟨n, hn, .inl rfl⟩⟩

/-- The completion of a node's task, once its graph is cancelled. -/
private theorem Winds.record (h : Winds s s') (hv : s'.Valid) {node : QraftGraphNode}
    (hn : node ∈ s'.nodes) {task : TaskId} (ht : node.task = some task) (ho : node.settledAt = none)
    {outcome : NodeStatus} (hout : outcome = .succeeded ∨ outcome = .failed) (now : Time) :
    Winds s { s'.updateNodes (fun n => n.key = node.key && n.settledAt = none)
        (recordOutcome outcome now) with
      journal := s'.journal ++ [.outcomeRecorded node.key node.generation task outcome] } := by
  have hbound : node.task ≠ none := by
    rw [ht]
    exact Option.some_ne_none _
  have hrun := (hv.nodes.rows node hn).running_of_open hbound ho
  have houts : (s'.journal ++ [JournalEntry.outcomeRecorded node.key node.generation task outcome]).filterMap
      JournalEntry.outcome? = s'.outcomes ++ [(node.key, node.generation, task, outcome)] := by
    rw [List.filterMap_append]
    rfl
  refine ⟨h.graph, h.settlements, h.store, ?_, ?_, ?_⟩
  · refine Eq.trans ?_ h.creations
    simp [GraphState.creations, JournalEntry.creation?]
  · rw [← h.keys]
    exact Rows.map_updateWhere (fun n : QraftGraphNode => n.key) fun _ _ _ => rfl
  · intro n'' hn''
    obtain ⟨n', hn', rfl⟩ := Rows.mem_updateWhere.mp hn''
    obtain ⟨n, hmem, hrow⟩ := h.nodes n' hn'
    refine ⟨n, hmem, ?_⟩
    split
    · rename_i hsel
      simp only [Bool.and_eq_true, decide_eq_true_eq] at hsel
      obtain rfl := hv.nodes.eq_of_key hn' hn hsel.1
      rcases hrow with rfl | ⟨-, t, o, earlier, -, -, he, -⟩
      · refine .inr ⟨hrun, task, outcome, now, ht, hout, rfl, ?_⟩
        rw [outcomes, houts]
        exact List.mem_append_right _ (List.mem_singleton.mpr rfl)
      · -- A node that has run out is settled.
        rw [he] at ho
        cases ho
    · rcases hrow with rfl | ⟨hst, t, o, earlier, htask, hoo, he, hm⟩
      · exact .inl rfl
      · refine .inr ⟨hst, t, o, earlier, htask, hoo, he, ?_⟩
        rw [outcomes, houts]
        exact List.mem_append_left _ hm

/-- No call but a completion goes through on a cancelled graph. -/
theorem Winds.call (h : Winds s s') (hc : s'.graph.status = .cancelled) (hv : s'.Valid)
    {r : GraphState × Option QraftGraph} (hr : s'.call conf now e = .ok r) : Winds s r.1 := by
  have hterm : s'.graph.status.Terminal := .inr (.inr hc)
  rcases call_cases hr with ⟨task, -, hr⟩ | ⟨key, reason, -, hr⟩ | ⟨-, hr⟩ | ⟨key, -, -, hr⟩ |
    ⟨key, reason, -, hr⟩ | ⟨nodes, n, -, -, hr⟩
  · rcases handleNodeCompletion_cases hr with
      rfl | ⟨node, outcome, recorded, hn, -, hout, hbound, hopen, hrec, hrest⟩
    · exact h
    · rcases hrest with ⟨hrun, -⟩ | ⟨-, rfl⟩
      · cases hc.symm.trans hrun
      · rw [hrec]
        exact h.record hv hn hbound hopen (taskOutcome_cases hout) now
  · obtain ⟨t, hrun, -⟩ := skip_ok hr
    cases hc.symm.trans hrun
  · obtain ⟨hlive, -⟩ := cancel_ok hr
    rcases hlive.2 with hrun | hwait
    · cases hc.symm.trans hrun
    · cases hc.symm.trans hwait
  · obtain ⟨node, task, hlive, -⟩ := approve_ok hr
    exact absurd hterm hlive
  · obtain ⟨node, hlive, -⟩ := reject_ok hr
    exact absurd hterm hlive
  · obtain ⟨rerun, t, hsettled, -⟩ := resume_ok hr
    rcases hsettled with hs | hs
    · cases hc.symm.trans hs
    · cases hc.symm.trans hs

/-- And so on for any run from there. -/
theorem Winds.path (hr : (graphSystem conf).Reach s) (hc : s.graph.status = .cancelled)
    (hp : (graphSystem conf).Path (fun _ _ => True) s s') : Winds s s' := by
  induction hp with
  | refl => exact .refl s
  | step hpath _ hstep ih =>
    obtain ⟨g, hcall⟩ := graphSystem_step hstep
    exact ih.call (by rw [ih.graph]; exact hc) (reach_valid (hr.path hpath)) hcall

/-- Cancellation is final. -/
theorem cancellation_final {u : GraphState} (h : (graphSystem conf).Reach s) {r : GraphState × Option QraftGraph}
    (hc : s.cancel now = .ok r) (hp : (graphSystem conf).Path (fun _ _ => True) r.1 u) :
    u.graph.status = .cancelled ∧
    (∀ nodes later, u.resume conf nodes later =
      .error (.graphError s!"graph {u.graph.id} was cancelled and is not resumable")) ∧
    u.store = s.store ∧ u.creations = s.creations ∧
    (u.nodes.map fun n => n.key) = (s.nodes.map fun n => n.key) ∧
    ∀ n' ∈ u.nodes, ∃ n ∈ s.nodes, RunsOut u n n' := by
  obtain ⟨hlive, rfl⟩ := cancel_ok hc
  have hstatus : (s.settle .cancelled now).1.graph.status = .cancelled := by
    rcases settle_cases s .cancelled now with ⟨hno, -⟩ | ⟨g, -, rfl, he⟩
    · exact absurd hlive hno
    · rw [he]
      simp
  have hreach : (graphSystem conf).Reach (s.settle .cancelled now).1 := by
    apply StepSystem.ReachWhen.step (e := (.cancel, now)) h trivial
    simp only [graphSystem, call, hc]
    rfl
  have hw := Winds.path hreach hstatus hp
  have hdone : u.graph.status = .cancelled := by
    rw [hw.graph]
    exact hstatus
  refine ⟨hdone, ?_, ?_, ?_, ?_, ?_⟩
  · intro nodes later
    simp [resume, hdone]
  · rw [hw.store, settle_store]
  · rw [hw.creations]
    exact settle_filterMap _ (fun _ _ _ => rfl) s _ now
  · rw [hw.keys, settle_nodes]
  · intro n' hn'
    obtain ⟨n, hn, hrow⟩ := hw.nodes n' hn'
    rw [settle_nodes] at hn
    exact ⟨n, hn, hrow⟩

end

/-- A completion that was under way when the graph was cancelled. -/
theorem cancellation_final_diamond : ∃ s r s', (graphSystem {}).Reach s ∧ s.cancel 1 = .ok r ∧
    (graphSystem {}).Path (fun _ _ => True) r.1 s' ∧ s'.graph.status = .cancelled ∧
      (∃ n ∈ s'.nodes, n.key = "root" ∧ n.status = .succeeded) ∧ s'.store = s.store := by
  have hrun : ((start {} diamond 0 0).toOption.bind fun s => (s.cancel 1).toOption.bind fun r =>
      ((graphSystem {}).step r.1 (report 0 "root" .succeeded, 2)).map fun s' =>
        s'.nodes.any fun n => n.key = "root" && n.status = .succeeded) = some true := by
    decide
  obtain ⟨s, hs, hrun⟩ := Option.bind_eq_some_iff.mp hrun
  obtain ⟨r, hr, hrun⟩ := Option.bind_eq_some_iff.mp hrun
  obtain ⟨s', hs', hp⟩ := Option.map_eq_some_iff.mp hrun
  have hreach : (graphSystem {}).Reach s := .init ⟨diamond, 0, 0, Transaction.toOption_eq_some.mp hs⟩
  have hcancel := Transaction.toOption_eq_some.mp hr
  have hpath : (graphSystem {}).Path (fun _ _ => True) r.1 s' := .step .refl trivial hs'
  obtain ⟨hstatus, -, hstore, -⟩ := cancellation_final hreach hcancel hpath
  obtain ⟨n, hn, hp⟩ := List.any_eq_true.mp hp
  simp only [Bool.and_eq_true, decide_eq_true_eq] at hp
  exact ⟨s, r, s', hreach, hcancel, hpath, hstatus, ⟨n, hn, hp⟩, hstore⟩

end GraphState
end Qraft
