import Qraft.Graphs.Consistency

/-! The frontier loop: what one node's turn changes, and what the whole loop leaves. -/
namespace Qraft.GraphState
open NodeTable

/-- The row a dispatch inserts: a pending task of the node with one scheduled attempt. -/
structure DispatchedTask (s : GraphState) (node : QraftGraphNode) (task : QraftTask) : Prop where
  id : task.id = s.store.nextId
  status : task.status = .pending
  graphId : task.graphId = some s.graph.id
  graphNode : task.graphNode = some node.key
  attempt : ∃ a : QraftTaskAttempt, task.attempts = [a] ∧ a.id = s.store.nextId + 1 ∧
    a.attemptNumber = 1 ∧ a.state = .scheduled ∧ a.success = none ∧ a.q2TaskId = none ∧
    a.outputCommittedAt = none

def afterDispatch (s : GraphState) (node : QraftGraphNode) (task : QraftTask) (now : Time) :
    GraphState :=
  { s with
    store := { tasks := s.store.tasks ++ [task], nextId := s.store.nextId + 2 }
    nodes := Rows.updateWhere (fun n => n.key = node.key && n.status = .pending)
      (bindTask s.store.nextId now) s.nodes
    journal := s.journal ++ [.taskCreated node.key node.generation s.store.nextId] }

theorem dispatchNode_ok {conf : RetryDefaults} {now : Time} {s s' : GraphState}
    {node : QraftGraphNode} (h : dispatchNode conf now s node = .ok s') :
    ∃ task, DispatchedTask s node task ∧ s' = s.afterDispatch node task now := by
  obtain ⟨policy, _, h⟩ := Transaction.bind_eq_ok.mp h
  obtain ⟨task, ht, h⟩ := Transaction.bind_eq_ok.mp h
  obtain ⟨_, a, hid, hnum, hstate, hsucc, hq2, hout, rfl⟩ := QraftTask.scheduleAttempt_ok ht
  cases h
  exact ⟨_, ⟨rfl, rfl, rfl, rfl, a, rfl, hid, hnum, hstate, hsucc, hq2, hout⟩, rfl⟩

/-- One turn of the frontier loop parks its node or dispatches it. -/
theorem dispatchOrPark_cases {conf : RetryDefaults} {now : Time} {s s' : GraphState}
    {node : QraftGraphNode} (h : dispatchOrPark conf now s node = .ok s') :
    s' = s.updateNodes (fun n => n.key = node.key && n.status = .pending) park ∨
      ∃ task, DispatchedTask s node task ∧ s' = s.afterDispatch node task now := by
  unfold dispatchOrPark at h
  split at h
  · cases h
    exact .inl rfl
  · exact .inr (dispatchNode_ok h)

/-- The writes that take a node out of PENDING. -/
structure TakesUp (f : QraftGraphNode → QraftGraphNode) : Prop where
  columns : ∀ n, (f n).key = n.key ∧ (f n).after = n.after
  unmet : ∀ n, ¬ (f n).status.Met
  status : ∀ n, (f n).status ≠ .pending
  wellFormed : ∀ n, n.WellFormed → n.status = .pending → (f n).WellFormed

theorem takesUp_park : TakesUp park := by
  refine ⟨fun _ => ⟨rfl, rfl⟩, fun _ => by simp [park, NodeStatus.Met], fun _ => by simp [park], ?_⟩
  intro n hn hs
  have hb := hn.bound
  have ho := hn.open_iff
  simp only [hs, reduceCtorEq, or_self, iff_false, not_not, or_false, iff_true] at hb ho
  exact ⟨by simp [park, hb], by simp [park, ho]⟩

theorem takesUp_bindTask (id : TaskId) (now : Time) : TakesUp (bindTask id now) := by
  refine ⟨fun _ => ⟨rfl, rfl⟩, fun _ => by simp [bindTask, NodeStatus.Met],
    fun _ => by simp [bindTask], ?_⟩
  intro n hn hs
  have ho := hn.open_iff
  simp only [hs, reduceCtorEq, or_false, iff_true] at ho
  exact ⟨by simp [bindTask], by simp [bindTask, ho]⟩

def takeUp (f : QraftGraphNode → QraftGraphNode) (key : String) (nodes : NodeTable) : NodeTable :=
  Rows.updateWhere (fun n => n.key = key && n.status = .pending) f nodes

theorem dispatchOrPark_ok {conf : RetryDefaults} {now : Time} {s s' : GraphState}
    {node : QraftGraphNode} (h : dispatchOrPark conf now s node = .ok s') :
    s'.graph = s.graph ∧ s'.settlements = s.settlements ∧
      ∃ f, TakesUp f ∧ s'.nodes = takeUp f node.key s.nodes := by
  rcases dispatchOrPark_cases h with rfl | ⟨task, _, rfl⟩
  · exact ⟨rfl, rfl, _, takesUp_park, rfl⟩
  · exact ⟨rfl, rfl, _, takesUp_bindTask _ _, rfl⟩

section TakeUp
variable {f : QraftGraphNode → QraftGraphNode} {key : String} {nodes : NodeTable}

private theorem takeUp_filter {n : QraftGraphNode} :
    (n.key = key && n.status = .pending) = true ↔ n.key = key ∧ n.status = .pending := by
  simp

theorem depMet_takeUp (hf : TakesUp f) : depMet (takeUp f key nodes) = nodes.depMet := by
  apply depMet_updateWhere_eq fun n => (hf.columns n).1
  intro n _ hp
  refine ⟨?_, hf.unmet n⟩
  rw [(takeUp_filter.mp hp).2]
  simp [NodeStatus.Met]

theorem consistent_takeUp (hf : TakesUp f) (hc : Consistent nodes)
    (hdeps : ∀ n ∈ nodes, n.key = key → n.status = .pending →
      ∀ d ∈ n.after, nodes.depMet d = true) : Consistent (takeUp f key nodes) := by
  apply hc.updateWhere hf.columns
  · intro n hn hp
    exact hf.wellFormed n (hc.rows n hn) (takeUp_filter.mp hp).2
  · intro n _ hp hmet
    rw [(takeUp_filter.mp hp).2] at hmet
    simp [NodeStatus.Met] at hmet
  · intro n hn hp _
    obtain ⟨hk, hs⟩ := takeUp_filter.mp hp
    exact hdeps n hn hk hs

/-- Taking a node up removes it, and nothing else, from the ready nodes. -/
theorem mem_readyNodes_takeUp (hf : TakesUp f) {n : QraftGraphNode} :
    n ∈ readyNodes (takeUp f key nodes) ↔ n ∈ nodes.readyNodes ∧ n.key ≠ key := by
  rw [mem_readyNodes, mem_readyNodes, depMet_takeUp hf]
  constructor
  · rintro ⟨hn, hs, hd⟩
    obtain ⟨m, hm, rfl⟩ := Rows.mem_updateWhere.mp hn
    split at hs
    · exact absurd hs (hf.status m)
    · rename_i hp
      rw [if_neg hp] at hd ⊢
      exact ⟨⟨hm, hs, hd⟩, fun hk => hp (takeUp_filter.mpr ⟨hk, hs⟩)⟩
  · rintro ⟨⟨hn, hs, hd⟩, hk⟩
    have hkeep := Rows.mem_updateWhere_of_mem (f := f)
      (p := fun n : QraftGraphNode => n.key = key && n.status = .pending) hn
    rw [if_neg fun hp => hk (takeUp_filter.mp hp).1] at hkeep
    exact ⟨hkeep, hs, hd⟩

end TakeUp

/-- What holds between two turns, with the nodes whose turn is still to come. -/
private structure Frontier (s : GraphState) (I : GraphState → Prop) (rest : List QraftGraphNode)
    (t : GraphState) : Prop where
  graph : t.graph = s.graph
  settlements : t.settlements = s.settlements
  consistent : Consistent t.nodes
  distinct : (rest.map fun n => n.key).Nodup
  ready : ∀ n, n ∈ t.nodes.readyNodes ↔ n ∈ rest
  keeps : I t

private theorem Frontier.turn {conf : RetryDefaults} {now : Time} {s t t' : GraphState}
    {I : GraphState → Prop} {node : QraftGraphNode} {rest : List QraftGraphNode}
    (hI : ∀ t node t', Consistent t.nodes → node ∈ t.nodes.readyNodes → I t →
      dispatchOrPark conf now t node = .ok t' → I t')
    (hf : Frontier s I (node :: rest) t) (h : dispatchOrPark conf now t node = .ok t') :
    Frontier s I rest t' := by
  have hnode : node ∈ t.nodes.readyNodes := (hf.ready node).mpr List.mem_cons_self
  obtain ⟨hn, _, hd⟩ := mem_readyNodes.mp hnode
  obtain ⟨hgraph, hsett, f, hup, hnodes⟩ := dispatchOrPark_ok h
  obtain ⟨hfresh, hrest⟩ := List.nodup_cons.mp hf.distinct
  refine ⟨hgraph.trans hf.graph, hsett.trans hf.settlements, ?_, hrest, ?_,
    hI t node t' hf.consistent hnode hf.keeps h⟩
  · rw [hnodes]
    apply consistent_takeUp hup hf.consistent
    intro m hm hk _
    rw [hf.consistent.eq_of_key hm hn hk]
    exact hd
  · intro n
    rw [hnodes, mem_readyNodes_takeUp hup, hf.ready, List.mem_cons]
    constructor
    · rintro ⟨rfl | hm, hk⟩
      · exact absurd rfl hk
      · exact hm
    · intro hm
      refine ⟨.inr hm, ?_⟩
      intro hk
      exact hfresh (List.mem_map.mpr ⟨n, hm, hk⟩)

private theorem frontier_of_dispatch {conf : RetryDefaults} {now : Time} {s s' : GraphState}
    {I : GraphState → Prop}
    (hI : ∀ t node t', Consistent t.nodes → node ∈ t.nodes.readyNodes → I t →
      dispatchOrPark conf now t node = .ok t' → I t')
    (hc : Consistent s.nodes) (hs : I s)
    (h : s.nodes.readyNodes.foldlM (dispatchOrPark conf now) s = .ok s') :
    Frontier s I [] s' := by
  apply Transaction.foldlM_invariant (Frontier s I) _ _ h
  · intro node rest t t' hf hstep
    exact hf.turn hI hstep
  · exact ⟨rfl, rfl, hc, readyNodes_keys_nodup hc.nodup, fun _ => Iff.rfl, hs⟩

/-- What the frontier loop does to a live graph: every ready node is taken up,
and only the node table, the task store and the journal change. -/
theorem dispatchFrontier_ok {conf : RetryDefaults} {now : Time} {s s' : GraphState}
    (hc : Consistent s.nodes) (h : dispatchFrontier conf now s = .ok s') :
    s'.graph = s.graph ∧ s'.settlements = s.settlements ∧ Consistent s'.nodes ∧
      (s.graph.status = .running → s'.nodes.readyNodes = []) := by
  unfold dispatchFrontier at h
  split at h
  · rename_i hr
    cases h
    exact ⟨rfl, rfl, hc, fun hs => absurd hs hr⟩
  · have hf := frontier_of_dispatch (I := fun _ => True) (fun _ _ _ _ _ _ _ => trivial) hc trivial h
    refine ⟨hf.graph, hf.settlements, hf.consistent, fun _ => ?_⟩
    rw [List.eq_nil_iff_forall_not_mem]
    intro n hn
    simpa using (hf.ready n).mp hn

/-- Loop rule: what the turn of a ready node keeps, the frontier loop keeps. -/
theorem dispatchFrontier_invariant {conf : RetryDefaults} {now : Time} {s s' : GraphState}
    (I : GraphState → Prop)
    (hI : ∀ t node t', Consistent t.nodes → node ∈ t.nodes.readyNodes → I t →
      dispatchOrPark conf now t node = .ok t' → I t')
    (hc : Consistent s.nodes) (hs : I s) (h : dispatchFrontier conf now s = .ok s') : I s' := by
  unfold dispatchFrontier at h
  split at h
  · cases h
    exact hs
  · exact (frontier_of_dispatch hI hc hs h).keeps

end Qraft.GraphState
