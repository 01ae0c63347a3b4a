import Qraft.Foundations.Cascade
import Qraft.Graphs.System

/-! What a graph computes. Its node statuses are a function of its plan, of how its tasks end and of what
people decide, and not of the order in which completions and decisions arrive. -/
namespace Qraft

def QraftGraphNode.spec (n : QraftGraphNode) : NodeSpec where
  key := n.key
  func := n.func
  taskArgs := n.taskArgs
  taskKwargs := n.taskKwargs
  after := n.after
  recovery := n.recovery
  requiresApproval := n.requiresApproval
  options := n.options

/-- How nodes end: whether the task of a node's generation succeeds, and whether a gate is approved. -/
structure Verdicts where
  succeeds : String → Nat → Bool
  approves : String → Nat → Bool

/-- The status a node comes to once it has had its turn. -/
def Verdicts.status (v : Verdicts) (n : QraftGraphNode) : NodeStatus :=
  if n.requiresApproval && !v.approves n.key n.generation then .cancelled
  else if v.succeeds n.key n.generation then .succeeded
  else .failed

namespace GraphState
open NodeTable

/-- The calls of a run in which tasks and gates go as told, and nobody cancels. -/
def Follows (v : Verdicts) (s : GraphState) (e : GraphEvent × Time) : Prop :=
  match e.1 with
  | .completion task => ∀ n ∈ s.nodes, task.graphNode = some n.key → n.task = some task.id →
      n.settledAt = none → ∀ outcome ∈ taskOutcome task.status, outcome = v.status n
  | .approve key => ∀ n ∈ s.nodes, n.key = key → v.status n ≠ .cancelled
  | .reject key _ => ∀ n ∈ s.nodes, n.key = key → v.status n = .cancelled
  | .skip .. => True
  | .resume _ => True
  | .cancel => False

instance (v : Verdicts) (s : GraphState) (e : GraphEvent × Time) : Decidable (Follows v s e) :=
  match e with
  | (.completion task, _) => inferInstanceAs (Decidable (∀ n ∈ s.nodes, task.graphNode = some n.key →
      n.task = some task.id → n.settledAt = none → ∀ outcome ∈ taskOutcome task.status, outcome = v.status n))
  | (.approve key, _) => inferInstanceAs (Decidable (∀ n ∈ s.nodes, n.key = key → v.status n ≠ .cancelled))
  | (.reject key _, _) => inferInstanceAs (Decidable (∀ n ∈ s.nodes, n.key = key → v.status n = .cancelled))
  | (.skip .., _) => isTrue trivial
  | (.resume _, _) => isTrue trivial
  | (.cancel, _) => isFalse id

section Spec
variable {conf : RetryDefaults} {now : Time} {s t : GraphState}

theorem spec_updateWhere {nodes : NodeTable} {p : QraftGraphNode → Bool} {f : QraftGraphNode → QraftGraphNode}
    (hf : ∀ n, (f n).spec = n.spec) :
    (Rows.updateWhere p f nodes).map QraftGraphNode.spec = nodes.map QraftGraphNode.spec :=
  Rows.map_updateWhere _ fun n _ _ => hf n

theorem dispatchFrontier_spec (hc : Consistent s.nodes) (h : dispatchFrontier conf now s = .ok t) :
    t.nodes.map QraftGraphNode.spec = s.nodes.map QraftGraphNode.spec := by
  apply dispatchFrontier_invariant
    (fun t => t.nodes.map QraftGraphNode.spec = s.nodes.map QraftGraphNode.spec) _ hc rfl h
  intro u node u' _ _ hu hturn
  rw [← hu]
  rcases dispatchOrPark_cases hturn with rfl | ⟨task, _, rfl⟩
  · exact spec_updateWhere fun _ => rfl
  · exact spec_updateWhere fun _ => rfl

theorem start_spec {plan : GraphPlan} {id : GraphId} (h : start conf plan id now = .ok s) :
    s.nodes.map QraftGraphNode.spec = plan.nodes := by
  obtain ⟨s₀, t, hcheck, hins, ht, rfl⟩ := start_ok h
  rw [maybeSettle_nodes, dispatchFrontier_spec (hins.consistent hcheck) ht, hins.nodes]
  apply List.ext_getElem
  · simp
  · intro i _ _
    simp [QraftGraphNode.spec, GraphPlan.nodeRow]

/-- No transaction writes a column of the plan. -/
theorem call_spec {e : GraphEvent} {r : GraphState × Option QraftGraph} (hv : s.Valid)
    (h : s.call conf now e = .ok r) :
    r.1.nodes.map QraftGraphNode.spec = s.nodes.map QraftGraphNode.spec := by
  rcases call_cases h with ⟨task, -, h⟩ | ⟨key, reason, -, h⟩ | ⟨-, h⟩ | ⟨key, -, -, h⟩ |
    ⟨key, reason, -, h⟩ | ⟨nodes, n, -, -, h⟩
  · rcases handleNodeCompletion_cases h with
      rfl | ⟨node, outcome, recorded, hn, -, hout, hbound, hopen, rfl, hrest⟩
    · rfl
    · have hs := (hv.nodes.rows node hn).running_of_open (by simp [hbound]) hopen
      have hc := consistent_recordOutcome hv.nodes hn hs (taskOutcome_cases hout) now
      rcases hrest with ⟨-, t, ht, rfl⟩ | ⟨-, rfl⟩
      · rw [maybeSettle_nodes, dispatchFrontier_spec hc ht]
        exact spec_updateWhere fun _ => rfl
      · exact spec_updateWhere fun _ => rfl
  · obtain ⟨t, -, ht, rfl⟩ := skip_ok h
    rw [maybeSettle_nodes, dispatchFrontier_spec (consistent_skip hv.nodes key reason now) ht]
    exact spec_updateWhere fun _ => rfl
  · obtain ⟨-, rfl⟩ := cancel_ok h
    rw [settle_nodes]
  · obtain ⟨node, task, -, -, -, -, -, date, hr⟩ := approve_ok h
    simp only [hr, afterDispatch, updateNodes]
    exact (spec_updateWhere (f := bindTask s.store.nextId now) fun _ => rfl).trans
      (spec_updateWhere (f := release) fun _ => rfl)
  · obtain ⟨node, -, -, -, -, rfl⟩ := reject_ok h
    rw [maybeSettle_nodes]
    exact spec_updateWhere fun _ => rfl
  · obtain ⟨rerun, t, -, hrerun, -, ht, hr⟩ := resume_ok h
    have hfst : r.1 = (t.maybeSettle now).1 := (Prod.mk.inj hr).1
    rw [hfst, maybeSettle_nodes, dispatchFrontier_spec (hv.consistent_rewind hrerun now) ht]
    simp only [rewind, recordSettlement_nodes]
    exact spec_updateWhere fun _ => rfl

end Spec

/-- A node that has gone the way the verdicts tell, as far as it has gone. -/
structure OnCourse (v : Verdicts) (n : QraftGraphNode) : Prop where
  parked : n.status = .waitingApproval → n.requiresApproval = true
  running : n.status = .running → v.status n ≠ .cancelled
  decided : n.status = .succeeded ∨ n.status = .failed ∨ n.status = .cancelled → n.status = v.status n

section Course
variable {conf : RetryDefaults} {now : Time} {v : Verdicts} {s t : GraphState} {nodes : NodeTable}

theorem onCourse_of_open {n : QraftGraphNode} (h : n.status = .pending ∨ n.status = .skipped) :
    OnCourse v n := by
  rcases h with h | h
  · exact ⟨by simp [h], by simp [h], by simp [h]⟩
  · exact ⟨by simp [h], by simp [h], by simp [h]⟩

theorem onCourse_updateWhere {p : QraftGraphNode → Bool} {f : QraftGraphNode → QraftGraphNode}
    (h : ∀ n ∈ nodes, OnCourse v n) (hf : ∀ n ∈ nodes, p n = true → OnCourse v (f n)) :
    ∀ n ∈ Rows.updateWhere p f nodes, OnCourse v n := by
  intro n hn
  obtain ⟨m, hm, rfl⟩ := Rows.mem_updateWhere.mp hn
  split
  · rename_i hp
    exact hf m hm hp
  · exact h m hm

theorem onCourse_bindTask {n : QraftGraphNode} (id : TaskId) (hv : v.status n ≠ .cancelled) :
    OnCourse v (bindTask id now n) :=
  ⟨by simp [bindTask], fun _ => hv, by simp [bindTask]⟩

theorem dispatchOrPark_onCourse {node : QraftGraphNode} (hc : Consistent s.nodes)
    (hn : node ∈ s.nodes.readyNodes) (h : ∀ n ∈ s.nodes, OnCourse v n)
    (hturn : dispatchOrPark conf now s node = .ok t) : ∀ n ∈ t.nodes, OnCourse v n := by
  have hsel : ∀ n ∈ s.nodes, (decide (n.key = node.key) && decide (n.status = .pending)) = true → n = node := by
    intro n hmem hp
    simp only [Bool.and_eq_true, decide_eq_true_eq] at hp
    exact hc.eq_of_key hmem (mem_readyNodes.mp hn).1 hp.1
  unfold dispatchOrPark at hturn
  split at hturn
  · rename_i hgate
    cases hturn
    apply onCourse_updateWhere h
    intro n hmem hp
    rw [hsel n hmem hp]
    exact ⟨fun _ => hgate, by simp [park], by simp [park]⟩
  · rename_i hgate
    obtain ⟨task, -, rfl⟩ := dispatchNode_ok hturn
    apply onCourse_updateWhere h
    intro n hmem hp
    rw [hsel n hmem hp]
    apply onCourse_bindTask
    simp only [Verdicts.status, hgate, Bool.false_and, Bool.false_eq_true, if_false]
    split <;> decide

theorem dispatchFrontier_onCourse (hc : Consistent s.nodes) (h : ∀ n ∈ s.nodes, OnCourse v n)
    (ht : dispatchFrontier conf now s = .ok t) : ∀ n ∈ t.nodes, OnCourse v n :=
  dispatchFrontier_invariant (fun t => ∀ n ∈ t.nodes, OnCourse v n)
    (fun _ _ _ hc hn h hturn => dispatchOrPark_onCourse hc hn h hturn) hc h ht

theorem start_onCourse {plan : GraphPlan} {id : GraphId} (h : start conf plan id now = .ok s) :
    ∀ n ∈ s.nodes, OnCourse v n := by
  obtain ⟨s₀, t, hcheck, hins, ht, rfl⟩ := start_ok h
  rw [maybeSettle_nodes]
  refine dispatchFrontier_onCourse (hins.consistent hcheck) ?_ ht
  rw [hins.nodes]
  intro n hn
  obtain ⟨i, hi, rfl⟩ := List.mem_mapIdx.mp hn
  exact onCourse_of_open (.inl rfl)

/-- A call of a run that follows the verdicts keeps every node on its course. -/
theorem call_onCourse {e : GraphEvent} {r : GraphState × Option QraftGraph} (hv : s.Valid)
    (hf : Follows v s (e, now)) (hs : ∀ n ∈ s.nodes, OnCourse v n) (h : s.call conf now e = .ok r) :
    ∀ n ∈ r.1.nodes, OnCourse v n := by
  rcases call_cases h with ⟨task, rfl, h⟩ | ⟨key, reason, -, h⟩ | ⟨rfl, -⟩ | ⟨key, rfl, -, h⟩ |
    ⟨key, reason, rfl, h⟩ | ⟨nodes, n, -, -, h⟩
  · rcases handleNodeCompletion_cases h with
      rfl | ⟨node, outcome, recorded, hn, hkey, hout, hbound, hopen, rfl, hrest⟩
    · exact hs
    · have hrun := (hv.nodes.rows node hn).running_of_open (by simp [hbound]) hopen
      have hc := consistent_recordOutcome hv.nodes hn hrun (taskOutcome_cases hout) now
      have ho : outcome = v.status node := hf node hn hkey hbound hopen outcome hout
      have hrec : ∀ n ∈ Rows.updateWhere (fun n => n.key = node.key && n.settledAt = none)
          (recordOutcome outcome now) s.nodes, OnCourse v n := by
        apply onCourse_updateWhere hs
        intro n hmem hp
        simp only [Bool.and_eq_true, decide_eq_true_eq] at hp
        rw [hv.nodes.eq_of_key hmem hn hp.1]
        refine ⟨?_, ?_, fun _ => ho⟩
        · rcases taskOutcome_cases hout with rfl | rfl <;> simp [recordOutcome]
        · rcases taskOutcome_cases hout with rfl | rfl <;> simp [recordOutcome]
      rcases hrest with ⟨-, t, ht, rfl⟩ | ⟨-, rfl⟩
      · rw [maybeSettle_nodes]
        exact dispatchFrontier_onCourse hc hrec ht
      · exact hrec
  · obtain ⟨t, -, ht, rfl⟩ := skip_ok h
    rw [maybeSettle_nodes]
    refine dispatchFrontier_onCourse (consistent_skip hv.nodes key reason now) ?_ ht
    exact onCourse_updateWhere hs fun n _ _ => onCourse_of_open (.inr rfl)
  · exact hf.elim
  · obtain ⟨node, task, -, hn, rfl, hw, -, date, hr⟩ := approve_ok h
    rw [hr]
    apply onCourse_updateWhere
    · exact onCourse_updateWhere hs fun n _ _ => onCourse_of_open (.inl rfl)
    · intro n' hn' hp
      obtain ⟨n, hmem, rfl⟩ := Rows.mem_updateWhere.mp hn'
      apply onCourse_bindTask
      simp only [Bool.and_eq_true, decide_eq_true_eq] at hp
      have hk : n.key = node.key := by
        by_contra hne
        simp [hne, release] at hp
      simpa [hk, release, Verdicts.status] using hf n hmem hk
  · obtain ⟨node, -, hn, rfl, hw, rfl⟩ := reject_ok h
    rw [maybeSettle_nodes]
    apply onCourse_updateWhere hs
    intro n hmem hp
    simp only [decide_eq_true_eq] at hp
    exact ⟨by simp [rejectNode], by simp [rejectNode], fun _ => (hf n hmem hp).symm⟩
  · obtain ⟨rerun, t, -, hrerun, -, ht, hr⟩ := resume_ok h
    have hfst : r.1 = (t.maybeSettle now).1 := (Prod.mk.inj hr).1
    rw [hfst, maybeSettle_nodes]
    refine dispatchFrontier_onCourse (hv.consistent_rewind hrerun now) ?_ ht
    simp only [rewind, recordSettlement_nodes]
    exact onCourse_updateWhere hs fun n _ _ => onCourse_of_open (.inl rfl)

end Course

/-- A graph that is cancelled because a gate was rejected, and not by a call of `cancel`, has come to rest. -/
def Rejected (s : GraphState) : Prop :=
  s.graph.status = .cancelled → s.nodes.readyNodes = [] ∧ (∃ n ∈ s.nodes, n.status = .cancelled) ∧
    ∀ n ∈ s.nodes, n.status ≠ .running ∧ n.status ≠ .failed

section Rest
variable {conf : RetryDefaults} {now : Time} {v : Verdicts} {s t : GraphState}

theorem quiescence_cancelled {nodes : NodeTable} (h : nodes.quiescence = .settle .cancelled) :
    (∃ n ∈ nodes, n.status = .cancelled) ∧ ∀ n ∈ nodes, n.status ≠ .running ∧ n.status ≠ .failed := by
  unfold quiescence at h
  simp only [List.mem_map] at h
  split at h
  · cases h
  rename_i hbusy
  split at h
  · cases h
  rename_i hfailed
  split at h
  · rename_i hcancelled
    refine ⟨hcancelled, fun n hn => ⟨fun hs => ?_, fun hs => hfailed ⟨n, hn, hs⟩⟩⟩
    exact hbusy ⟨.inl ⟨n, hn, hs⟩, .inl ⟨n, hn, hs⟩⟩
  split at h
  · cases h
  split at h <;> cases h

theorem maybeSettle_rejected (hr : s.graph.status = .running) (hq : s.nodes.readyNodes = []) :
    (s.maybeSettle now).1.Rejected := by
  intro hc
  rw [maybeSettle_nodes]
  refine ⟨hq, ?_⟩
  apply quiescence_cancelled
  rcases maybeSettle_cases s now with ⟨_, h⟩ | ⟨status, hquiet, h⟩ | ⟨_, _, h⟩ | ⟨_, _, h⟩ | ⟨_, h⟩
  · simp [h, hr] at hc
  · rw [hquiet]
    rcases settle_cases s status now with ⟨_, he⟩ | ⟨g, _, rfl, he⟩
    · simp [h, he, hr] at hc
    · simp only [h, he, recordSettlement_graph] at hc
      rw [hc]
  · simp [h, parkGraph] at hc
  · simp [h, hr] at hc
  · simp [h, hr] at hc

theorem advance_rejected (hs : s.Advancing) (h : dispatchFrontier conf now s = .ok t) :
    (t.maybeSettle now).1.Rejected := by
  obtain ⟨hgraph, _, _, hquiet⟩ := dispatchFrontier_ok hs.nodes h
  exact maybeSettle_rejected (hgraph ▸ hs.running) (hquiet hs.running)

theorem start_rejected {plan : GraphPlan} {id : GraphId} (h : start conf plan id now = .ok s) : s.Rejected := by
  obtain ⟨s₀, t, hcheck, hins, ht, rfl⟩ := start_ok h
  exact advance_rejected ⟨hins.consistent hcheck, hins.status, hins.settledAt, by simp [hins.journal]⟩ ht

/-- To reject a parked node makes nothing ready. -/
theorem readyNodes_reject {nodes : NodeTable} {node : QraftGraphNode} (hc : Consistent nodes) (hn : node ∈ nodes)
    (hw : node.status = .waitingApproval) (hq : nodes.readyNodes = []) (reason : Option String) (now : Time) :
    readyNodes (Rows.updateWhere (fun n => n.key = node.key) (rejectNode reason now) nodes) = [] := by
  have hmet : depMet (Rows.updateWhere (fun n => n.key = node.key) (rejectNode reason now) nodes) =
      nodes.depMet := by
    refine depMet_updateWhere_eq (f := rejectNode reason now) (fun _ => rfl) ?_
    intro n hmem hk
    rw [hc.eq_of_key hmem hn (by simpa using hk), hw]
    simp [rejectNode, NodeStatus.Met]
  rw [readyNodes_eq_nil]
  intro n hmem hs hd
  rw [hmet] at hd
  obtain ⟨m, hm, rfl⟩ := Rows.mem_updateWhere.mp hmem
  split at hs
  · simp [rejectNode] at hs
  · rename_i hp
    rw [if_neg hp] at hd
    exact readyNodes_eq_nil.mp hq m hm hs hd

theorem call_rejected {e : GraphEvent} {r : GraphState × Option QraftGraph} (hv : s.Valid) (hs : s.Rejected)
    (hf : Follows v s (e, now)) (h : s.call conf now e = .ok r) : r.1.Rejected := by
  rcases call_cases h with ⟨task, rfl, h⟩ | ⟨key, reason, -, h⟩ | ⟨rfl, -⟩ | ⟨key, rfl, -, h⟩ |
    ⟨key, reason, rfl, h⟩ | ⟨nodes, n, -, -, h⟩
  · rcases handleNodeCompletion_cases h with
      rfl | ⟨node, outcome, recorded, hn, hkey, hout, hbound, hopen, rfl, hrest⟩
    · exact hs
    · have hrun := (hv.nodes.rows node hn).running_of_open (by simp [hbound]) hopen
      have hc := consistent_recordOutcome hv.nodes hn hrun (taskOutcome_cases hout) now
      rcases hrest with ⟨hr, t, ht, rfl⟩ | ⟨-, rfl⟩
      · refine advance_rejected (s := { s.updateNodes _ _ with journal := _ }) ?_ ht
        refine ⟨hc, hr, hv.settled.mpr (by simp [hr, GraphStatus.Terminal]), ?_⟩
        simpa using hv.total
      · exact fun hcancel => absurd hrun ((hs hcancel).2.2 node hn).1
  · obtain ⟨t, hr, ht, rfl⟩ := skip_ok h
    refine advance_rejected (s := s.updateNodes _ _) ?_ ht
    refine ⟨consistent_skip hv.nodes key reason now, hr, ?_, hv.total⟩
    exact hv.settled.mpr (by simp [hr, GraphStatus.Terminal])
  · exact hf.elim
  · obtain ⟨node, task, hlive, -, -, -, -, date, hr⟩ := approve_ok h
    intro hc
    rw [hr] at hc
    simp [wake_status hlive] at hc
  · obtain ⟨node, hlive, hn, rfl, hw, rfl⟩ := reject_ok h
    apply maybeSettle_rejected (wake_status hlive)
    have hquiet : s.nodes.readyNodes = [] := hv.quiet fun hx => hlive (.inr (.inr hx))
    exact readyNodes_reject hv.nodes hn hw hquiet reason now
  · obtain ⟨rerun, t, -, hrerun, -, ht, hr⟩ := resume_ok h
    have hfst : r.1 = (t.maybeSettle now).1 := (Prod.mk.inj hr).1
    rw [hfst]
    refine advance_rejected ⟨hv.consistent_rewind hrerun now, rfl, rfl, ?_⟩ ht
    simpa [rewind] using hv.total

end Rest

/-- What the verdicts leave open: its generation, whether a person skipped it, whether its gate was left. -/
def outline (n : QraftGraphNode) : Nat × Bool × Bool :=
  (n.generation, n.status = .skipped, n.status = .waitingApproval)

/-- The plan of a graph as steps that wait for one another. A skipped node is waived; a gate left
undecided lets nothing past it. -/
def cascade (v : Verdicts) (nodes : NodeTable) : Cascade String where
  step k := ∃ n ∈ nodes, n.key = k
  waitsFor k d := ∃ n ∈ nodes, n.key = k ∧ d ∈ n.after
  waived k := ∃ n ∈ nodes, n.key = k ∧ n.status = .skipped
  passes k := ∃ n ∈ nodes, n.key = k ∧ n.status ≠ .waitingApproval ∧ v.status n = .succeeded

section Evaluation
variable {conf : RetryDefaults} {now : Time} {v : Verdicts} {s t : GraphState} {nodes : NodeTable}

theorem cascade_grounded (h : Consistent nodes) : (cascade v nodes).Grounded := by
  rintro p k ⟨n, hn, rfl⟩ hp
  obtain ⟨c, hc, hpc, hbelow⟩ := h.plan.minimal p (n.key, n.after) (List.mem_map_of_mem hn) hp
  obtain ⟨m, hm, rfl⟩ := List.mem_map.mp hc
  refine ⟨m.key, ⟨m, hm, rfl⟩, hpc, ?_⟩
  rintro d ⟨m', hm', hk, hd⟩
  rw [h.eq_of_key hm' hm hk] at hd
  exact hbelow d hd

/-- A graph at rest: no node runs, none is ready, and what is decided went as the verdicts tell. -/
structure AtRest (v : Verdicts) (nodes : NodeTable) : Prop where
  consistent : Consistent nodes
  course : ∀ n ∈ nodes, OnCourse v n
  idle : ∀ n ∈ nodes, n.status ≠ .running
  quiet : nodes.readyNodes = []

/-- A dependency that is met was skipped, or had its turn and passed. -/
private theorem met_passes (h : AtRest v nodes) {d : String} (hd : nodes.depMet d = true) :
    (cascade v nodes).waived d ∨
      (∃ n ∈ nodes, n.key = d ∧ n.status.Started) ∧ (cascade v nodes).passes d := by
  obtain ⟨m, hm, rfl, hs | hs⟩ := depMet_iff.mp hd
  · have hv := (h.course m hm).decided (.inl hs)
    refine .inr ⟨⟨m, hm, rfl, by simp [hs, NodeStatus.Started]⟩, m, hm, rfl, by simp [hs], ?_⟩
    rw [← hv, hs]
  · exact .inl ⟨m, hm, rfl, hs⟩

/-- A node that was started and passed is met. -/
private theorem passes_met (h : AtRest v nodes) {m m' : QraftGraphNode} (hm : m ∈ nodes) (hm' : m' ∈ nodes)
    (hk : m'.key = m.key) (hs : m.status.Started) (hw : m'.status ≠ .waitingApproval)
    (hv : v.status m' = .succeeded) : nodes.depMet m.key = true := by
  rw [h.consistent.eq_of_key hm' hm hk] at hw hv
  refine depMet_iff.mpr ⟨m, hm, rfl, .inl ?_⟩
  have hcourse := h.course m hm
  cases hst : m.status with
  | pending => exact absurd hst hs.1
  | running => exact absurd hst (h.idle m hm)
  | succeeded => rfl
  | failed => exact absurd (hst.symm.trans (hcourse.decided (.inr (.inl hst)))) (by simp [hv])
  | cancelled => exact absurd (hst.symm.trans (hcourse.decided (.inr (.inr hst)))) (by simp [hv])
  | skipped => exact absurd hst hs.2
  | waitingApproval => exact absurd hst hw

theorem AtRest.quiescent (h : AtRest v nodes) :
    (cascade v nodes).Quiescent fun k => ∃ n ∈ nodes, n.key = k ∧ n.status.Started := by
  refine ⟨?_, ?_, ?_, ?_⟩
  · rintro k ⟨n, hn, rfl, hs⟩ d ⟨n', hn', hk, hd⟩
    rw [h.consistent.eq_of_key hn' hn hk] at hd
    exact met_passes h (h.consistent.deps n hn hs d hd)
  · rintro k ⟨n, hn, rfl⟩ hw hno
    have hs : n.status = .pending := by
      by_contra hs
      exact hno ⟨n, hn, rfl, hs, fun hskip => hw ⟨n, hn, rfl, hskip⟩⟩
    have hstuck := readyNodes_eq_nil.mp h.quiet n hn hs
    push Not at hstuck
    obtain ⟨d, hd, hunmet⟩ := hstuck
    refine ⟨d, ⟨n, hn, rfl, hd⟩, ?_, ?_⟩
    · rintro ⟨m, hm, rfl, hskip⟩
      exact hunmet (depMet_iff.mpr ⟨m, hm, rfl, .inr hskip⟩)
    · rintro ⟨⟨m, hm, rfl, hms⟩, m', hm', hk, hw', hv'⟩
      exact hunmet (passes_met h hm hm' hk hms hw' hv')
  · rintro k ⟨n, hn, hk, -⟩
    exact ⟨n, hn, hk⟩
  · rintro k - d ⟨n, hn, rfl, hd⟩
    have hclosed := h.consistent.plan.closed (n.key, n.after) (List.mem_map_of_mem hn) d hd
    rw [plan_keys] at hclosed
    obtain ⟨m, hm, rfl⟩ := List.mem_map.mp hclosed
    exact ⟨m, hm, rfl⟩

theorem AtRest.started_iff (h : AtRest v nodes) {n : QraftGraphNode} (hn : n ∈ nodes)
    (hs : n.status ≠ .skipped) : n.status ≠ .pending ↔ (cascade v nodes).HasTurn n.key := by
  rw [← h.quiescent.started_iff (cascade_grounded h.consistent) ⟨n, hn, rfl⟩]
  · constructor
    · exact fun hp => ⟨n, hn, rfl, hp, hs⟩
    · rintro ⟨m, hm, hk, hms⟩
      exact h.consistent.eq_of_key hm hn hk ▸ hms.1
  · rintro ⟨m, hm, hk, hms⟩
    exact hs (h.consistent.eq_of_key hm hn hk ▸ hms)

theorem follows_call {P : GraphState → Prop}
    (hstart : ∀ plan id now s, start conf plan id now = .ok s → P s)
    (hcall : ∀ s e r, s.Valid → Follows v s e → P s → s.call conf e.2 e.1 = .ok r → P r.1)
    (h : (graphSystem conf).ReachWhen (Follows v) s) : P s := by
  apply h.invariant_of Valid P
  · exact fun s hs => reach_valid hs.reach
  · rintro s ⟨plan, id, now, hs⟩
    exact hstart plan id now s hs
  · intro s e s' hv hs hf hstep
    obtain ⟨g, hg⟩ := graphSystem_step hstep
    exact hcall s e _ hv hf hs hg

theorem follows_onCourse (h : (graphSystem conf).ReachWhen (Follows v) s) : ∀ n ∈ s.nodes, OnCourse v n :=
  follows_call (fun _ _ _ _ hs => start_onCourse hs) (fun _ _ _ hv hf hs hr => call_onCourse hv hf hs hr) h

theorem follows_rejected (h : (graphSystem conf).ReachWhen (Follows v) s) : s.Rejected :=
  follows_call (v := v) (fun _ _ _ _ hs => start_rejected hs)
    (fun _ _ _ hv hf hs hr => call_rejected hv hs hf hr) h

/-- Where no one cancels, a graph settles only once it is at rest. -/
theorem atRest (h : (graphSystem conf).ReachWhen (Follows v) s) (ht : s.graph.status.Terminal) :
    AtRest v s.nodes := by
  have hv := reach_valid h.reach
  by_cases hc : s.graph.status = .cancelled
  · obtain ⟨hq, -, hn⟩ := follows_rejected h hc
    exact ⟨hv.nodes, follows_onCourse h, fun n hm => (hn n hm).1, hq⟩
  · refine ⟨hv.nodes, follows_onCourse h, hv.no_running (fun hr => ?_) hc, hv.quiet hc⟩
    simp [hr, GraphStatus.Terminal] at ht

private theorem settled_status (h : (graphSystem conf).ReachWhen (Follows v) s) (ht : s.graph.status.Terminal) :
    (s.graph.status = .failed ↔ ∃ n ∈ s.nodes, n.status = .failed) ∧
    (s.graph.status = .cancelled ↔
      (∀ n ∈ s.nodes, n.status ≠ .failed) ∧ ∃ n ∈ s.nodes, n.status = .cancelled) := by
  have hagrees := (reach_valid h.reach).status
  have hrejected := follows_rejected h
  rcases ht with hs | hs | hs
  · rw [hs] at hagrees
    have hmet : ∀ n ∈ s.nodes, n.status ≠ .failed ∧ n.status ≠ .cancelled := by
      intro n hn
      rcases hagrees n hn with h | h <;> simp [h]
    refine ⟨⟨by simp [hs], ?_⟩, ⟨by simp [hs], ?_⟩⟩
    · rintro ⟨n, hn, hf⟩
      exact absurd hf (hmet n hn).1
    · rintro ⟨-, n, hn, hc⟩
      exact absurd hc (hmet n hn).2
  · rw [hs] at hagrees
    refine ⟨⟨fun _ => hagrees.1, fun _ => hs⟩, ⟨by simp [hs], ?_⟩⟩
    rintro ⟨hnone, -⟩
    obtain ⟨n, hn, hf⟩ := hagrees.1
    exact absurd hf (hnone n hn)
  · obtain ⟨-, hcancelled, hnone⟩ := hrejected hs
    refine ⟨⟨by simp [hs], ?_⟩, ⟨fun _ => ⟨fun n hn => (hnone n hn).2, hcancelled⟩, fun _ => hs⟩⟩
    rintro ⟨n, hn, hf⟩
    exact absurd hf (hnone n hn).2

/-- The status of a row at rest that was not skipped: what its verdict gives it if it had its turn. -/
theorem AtRest.row_status (h : AtRest v nodes) {n : QraftGraphNode} (hn : n ∈ nodes)
    (hs : n.status ≠ .skipped) :
    ((cascade v nodes).HasTurn n.key → n.status = .waitingApproval ∨ n.status = v.status n) ∧
      (¬ (cascade v nodes).HasTurn n.key → n.status = .pending) := by
  rw [← h.started_iff hn hs]
  refine ⟨fun hp => ?_, fun hp => not_not.mp hp⟩
  have hidle := h.idle n hn
  have hdecided := (h.course n hn).decided
  cases hst : n.status with
  | pending => exact absurd hst hp
  | running => exact absurd hst hidle
  | skipped => exact absurd hst hs
  | waitingApproval => exact .inl rfl
  | succeeded => exact .inr (hst ▸ hdecided (.inl hst))
  | failed => exact .inr (hst ▸ hdecided (.inr (.inl hst)))
  | cancelled => exact .inr (hst ▸ hdecided (.inr (.inr hst)))

/-- A settled graph is the value of its plan: each node that was neither skipped nor left at its gate
has the status its verdict gives it if it had its turn and is pending if not, and the graph has failed
if a node has, else is cancelled if a gate was rejected, else has succeeded. -/
theorem evaluated (h : (graphSystem conf).ReachWhen (Follows v) s) (ht : s.graph.status.Terminal) :
    (∀ n ∈ s.nodes, n.status ≠ .skipped →
      ((cascade v s.nodes).HasTurn n.key → n.status = .waitingApproval ∨ n.status = v.status n) ∧
      (¬ (cascade v s.nodes).HasTurn n.key → n.status = .pending)) ∧
    (s.graph.status = .failed ↔ ∃ n ∈ s.nodes, n.status = .failed) ∧
    (s.graph.status = .cancelled ↔
      (∀ n ∈ s.nodes, n.status ≠ .failed) ∧ ∃ n ∈ s.nodes, n.status = .cancelled) := by
  have hrest := atRest h ht
  exact ⟨fun n hn hs => hrest.row_status hn hs, settled_status h ht⟩

/-- One graph of this plan, whenever it is started. -/
def plannedSystem (conf : RetryDefaults) (plan : GraphPlan) : StepSystem GraphState (GraphEvent × Time) where
  init s := ∃ id now, start conf plan id now = .ok s
  step := (graphSystem conf).step

theorem planned {plan : GraphPlan} {P : GraphState → GraphEvent × Time → Prop}
    (h : (plannedSystem conf plan).ReachWhen P s) : (graphSystem conf).ReachWhen P s := by
  induction h with
  | init h =>
    obtain ⟨id, now, hs⟩ := h
    exact .init ⟨plan, id, now, hs⟩
  | step _ hp hs ih => exact .step ih hp hs

/-- Node rows keep their plan through every run. -/
theorem planned_spec {plan : GraphPlan} {P : GraphState → GraphEvent × Time → Prop}
    (h : (plannedSystem conf plan).ReachWhen P s) : s.nodes.map QraftGraphNode.spec = plan.nodes := by
  apply h.invariant_of Valid fun s => s.nodes.map QraftGraphNode.spec = plan.nodes
  · exact fun s hs => reach_valid (planned hs).reach
  · rintro s ⟨id, now, hs⟩
    exact start_spec hs
  · intro s e s' hv hs _ hstep
    obtain ⟨g, hg⟩ := graphSystem_step hstep
    exact (call_spec hv hg).trans hs

/-- Two rows of one node that differ at most in what the verdicts decide. -/
structure Alike (n m : QraftGraphNode) : Prop where
  spec : m.spec = n.spec
  generation : m.generation = n.generation
  skipped : m.status = .skipped ↔ n.status = .skipped
  parked : m.status = .waitingApproval ↔ n.status = .waitingApproval

theorem Alike.columns {n m : QraftGraphNode} (h : Alike n m) :
    m.key = n.key ∧ m.after = n.after ∧ v.status m = v.status n := by
  have hspec := h.spec
  simp only [QraftGraphNode.spec, NodeSpec.mk.injEq] at hspec
  obtain ⟨hk, -, -, -, ha, -, hr, -⟩ := hspec
  refine ⟨hk, ha, ?_⟩
  simp only [Verdicts.status, hk, hr, h.generation]

theorem alike_of_outline {nodes' : NodeTable} (hspec : nodes.map QraftGraphNode.spec = nodes'.map QraftGraphNode.spec)
    (h : nodes.map outline = nodes'.map outline) : List.Forall₂ Alike nodes nodes' := by
  have hlen : nodes.length = nodes'.length := by simpa using congrArg List.length h
  rw [List.forall₂_iff_get]
  refine ⟨hlen, fun i hi hi' => ?_⟩
  have hs : nodes[i].spec = nodes'[i].spec := by
    simpa [hi, hi'] using congrArg (fun l => l[i]?) hspec
  have ho : outline nodes[i] = outline nodes'[i] := by
    simpa [hi, hi'] using congrArg (fun l => l[i]?) h
  simp only [outline, Prod.mk.injEq, decide_eq_decide] at ho
  exact ⟨hs.symm, ho.1.symm, ho.2.1.symm, ho.2.2.symm⟩

/-- A property that rows alike share is had by some row of both tables or of none. -/
theorem exists_alike {nodes' : NodeTable} (h : List.Forall₂ Alike nodes nodes') {p : QraftGraphNode → Prop}
    (hp : ∀ n m, Alike n m → (p n ↔ p m)) : (∃ n ∈ nodes, p n) ↔ ∃ m ∈ nodes', p m := by
  induction h with
  | nil => simp
  | @cons n m ns ms hnm _ ih => simp only [List.mem_cons, exists_eq_or_imp, hp n m hnm, ih]

theorem cascade_alike {nodes' : NodeTable} (h : List.Forall₂ Alike nodes nodes') :
    cascade v nodes = cascade v nodes' := by
  simp only [cascade, Cascade.mk.injEq]
  refine ⟨?_, ?_, ?_, ?_⟩
  · funext k
    refine propext (exists_alike h fun n m hnm => ?_)
    rw [(hnm.columns (v := v)).1]
  · funext k d
    refine propext (exists_alike h fun n m hnm => ?_)
    rw [(hnm.columns (v := v)).1, (hnm.columns (v := v)).2.1]
  · funext k
    refine propext (exists_alike h fun n m hnm => ?_)
    rw [(hnm.columns (v := v)).1, hnm.skipped]
  · funext k
    refine propext (exists_alike h fun n m hnm => ?_)
    rw [(hnm.columns (v := v)).1, (hnm.columns (v := v)).2.2, Ne, Ne, hnm.parked]

/-- A row of a settled graph is told by the rows of its plan, its outline and the verdicts. -/
private theorem status_of_alike (hs : (graphSystem conf).ReachWhen (Follows v) s)
    (ht : (graphSystem conf).ReachWhen (Follows v) t) (hsettled : s.graph.status.Terminal)
    (htsettled : t.graph.status.Terminal) (halike : List.Forall₂ Alike s.nodes t.nodes) {n m : QraftGraphNode}
    (hn : n ∈ s.nodes) (hm : m ∈ t.nodes) (hnm : Alike n m) : n.status = m.status := by
  by_cases hskip : n.status = .skipped
  · rw [hskip, hnm.skipped.mpr hskip]
  by_cases hpark : n.status = .waitingApproval
  · rw [hpark, hnm.parked.mpr hpark]
  obtain ⟨hturn, hpending⟩ := (atRest hs hsettled).row_status hn hskip
  obtain ⟨hturn', hpending'⟩ := (atRest ht htsettled).row_status hm (mt hnm.skipped.mp hskip)
  obtain ⟨hkey, -, hverdict⟩ := hnm.columns (v := v)
  rw [cascade_alike halike] at hturn hpending
  rw [hkey] at hturn' hpending'
  by_cases hhas : (cascade v t.nodes).HasTurn n.key
  · rw [(hturn hhas).resolve_left hpark, (hturn' hhas).resolve_left (mt hnm.parked.mp hpark), hverdict]
  · rw [hpending hhas, hpending' hhas]

/-- The rows of a settled graph tell its status. -/
private theorem status_of_rows (hs : (graphSystem conf).ReachWhen (Follows v) s)
    (ht : (graphSystem conf).ReachWhen (Follows v) t) (hsettled : s.graph.status.Terminal)
    (htsettled : t.graph.status.Terminal)
    (hmap : s.nodes.map (fun n => n.status) = t.nodes.map (fun n => n.status)) :
    s.graph.status = t.graph.status := by
  have hsome : ∀ st, (∃ n ∈ s.nodes, n.status = st) ↔ ∃ n ∈ t.nodes, n.status = st := by
    intro st
    simpa only [List.mem_map] using iff_of_eq (congrArg (st ∈ ·) hmap)
  have hnone : (∀ n ∈ s.nodes, n.status ≠ .failed) ↔ ∀ n ∈ t.nodes, n.status ≠ .failed := by
    simpa only [not_exists, not_and] using not_congr (hsome .failed)
  obtain ⟨hfailed, hcancelled⟩ := settled_status hs hsettled
  obtain ⟨hfailed', hcancelled'⟩ := settled_status ht htsettled
  rw [hsome, ← hfailed'] at hfailed
  rw [hsome, hnone, ← hcancelled'] at hcancelled
  rcases hsettled with hg | hg | hg
  · rcases htsettled with hg' | hg' | hg'
    · rw [hg, hg']
    · exact (hfailed.mpr hg').trans hg'.symm
    · exact (hcancelled.mpr hg').trans hg'.symm
  · exact hg.trans (hfailed.mp hg).symm
  · exact hg.trans (hcancelled.mp hg).symm

/-- Two runs of one plan that settle with the same generations, the same nodes skipped and the same gates
left undecided end the same, node for node, whatever the order of their completions and decisions. -/
theorem order_irrelevant {plan : GraphPlan} (hs : (plannedSystem conf plan).ReachWhen (Follows v) s)
    (ht : (plannedSystem conf plan).ReachWhen (Follows v) t) (hsettled : s.graph.status.Terminal)
    (htsettled : t.graph.status.Terminal) (h : s.nodes.map outline = t.nodes.map outline) :
    s.nodes.map (fun n => n.status) = t.nodes.map (fun n => n.status) ∧ s.graph.status = t.graph.status := by
  have halike := alike_of_outline ((planned_spec hs).trans (planned_spec ht).symm) h
  have hmap : s.nodes.map (fun n => n.status) = t.nodes.map (fun n => n.status) := by
    apply List.ext_getElem
    · simpa using halike.length_eq
    · intro i hi hi'
      simp only [List.length_map] at hi hi'
      simp only [List.getElem_map]
      exact status_of_alike (planned hs) (planned ht) hsettled htsettled halike (List.getElem_mem hi)
        (List.getElem_mem hi') (halike.get hi hi')
  exact ⟨hmap, status_of_rows (planned hs) (planned ht) hsettled htsettled hmap⟩

/-- Every task of the diamond succeeds but that of its last node. -/
def lastFails : Verdicts where
  succeeds key _ := key != "join"
  approves _ _ := true

/-- Run a plan along the verdicts to a state that meets a test. -/
theorem exists_followed (conf : RetryDefaults) (plan : GraphPlan) (v : Verdicts)
    (events : List (GraphEvent × Time)) (p : GraphState → Bool)
    (h : ((start conf plan 0 0).toOption.bind fun s =>
      ((plannedSystem conf plan).guard (Follows v)).run s events).map p = some true) :
    ∃ s, (plannedSystem conf plan).ReachWhen (Follows v) s ∧ p s = true := by
  obtain ⟨s, hs, hp⟩ := Option.map_eq_some_iff.mp h
  obtain ⟨s₀, hs₀, hrun⟩ := Option.bind_eq_some_iff.mp hs
  have hstart : ((plannedSystem conf plan).guard (Follows v)).Reach s₀ :=
    .init ⟨0, 0, Transaction.toOption_eq_some.mp hs₀⟩
  exact ⟨s, StepSystem.reachWhen_of_guard (StepSystem.reach_of_run hstart hrun), hp⟩

/-- The gate is approved before the plain branch completes. -/
def gateFirst : List (GraphEvent × Time) := [(report 0 "root" .succeeded, 1), (.approve "gated", 2),
  (report 4 "gated" .succeeded, 3), (report 2 "plain" .succeeded, 4), (report 6 "join" .exhausted, 5)]

/-- The plain branch completes first, and the root once more. -/
def plainFirst : List (GraphEvent × Time) := [(report 0 "root" .succeeded, 1), (report 2 "plain" .succeeded, 2),
  (report 0 "root" .failed, 3), (.approve "gated", 4), (report 4 "gated" .succeeded, 5), (report 6 "join" .failed, 6)]

theorem evaluated_diamond : ∃ s, (graphSystem {}).ReachWhen (Follows lastFails) s ∧
    s.graph.status = .failed ∧ ∃ n ∈ s.nodes, n.status = .failed := by
  obtain ⟨s, hs, hp⟩ := exists_followed {} diamond lastFails gateFirst
    (fun s => s.graph.status = .failed) (by decide +kernel)
  simp only [decide_eq_true_eq] at hp
  exact ⟨s, planned hs, hp, (evaluated (planned hs) (.inr (.inl hp))).2.1.mp hp⟩

/-- The diamond has settled, with no node resumed or skipped. -/
def settledAlike (s : GraphState) : Bool :=
  s.graph.status.Terminal && s.nodes.map outline = List.replicate 4 (1, false, false)

theorem order_irrelevant_diamond : ∃ s t, (plannedSystem {} diamond).ReachWhen (Follows lastFails) s ∧
    (plannedSystem {} diamond).ReachWhen (Follows lastFails) t ∧ s.graph.status = t.graph.status := by
  obtain ⟨s, hs, hp⟩ := exists_followed {} diamond lastFails gateFirst settledAlike (by decide +kernel)
  obtain ⟨t, ht, hp'⟩ := exists_followed {} diamond lastFails plainFirst settledAlike (by decide +kernel)
  simp only [settledAlike, Bool.and_eq_true, decide_eq_true_eq] at hp hp'
  exact ⟨s, t, hs, ht, (order_irrelevant hs ht hp.1 hp'.1 (hp.2.trans hp'.2.symm)).2⟩

end Evaluation

end GraphState
end Qraft
