import Qraft.Graphs.Steps

/-! The graph status against the node statuses: every transaction leaves a graph
whose status says what its nodes say. -/
namespace Qraft
namespace NodeTable

/-- What a graph status says of the nodes. -/
def StatusAgrees (nodes : NodeTable) : GraphStatus → Prop
  | .running => ∃ n ∈ nodes, n.status = .running
  | .waitingApproval => (∃ n ∈ nodes, n.status = .waitingApproval) ∧
      ∀ n ∈ nodes, n.status ≠ .running ∧ n.status ≠ .failed ∧ n.status ≠ .cancelled
  | .failed => (∃ n ∈ nodes, n.status = .failed) ∧ ∀ n ∈ nodes, n.status ≠ .running
  | .succeeded => ∀ n ∈ nodes, n.status.Met
  | .cancelled => True

def Quiescence.status : Quiescence → Option GraphStatus
  | .busy => some .running
  | .settle status => some status
  | .park => some .waitingApproval
  | .fallThrough => none

theorem quiescence_agrees {nodes : NodeTable} (hquiet : nodes.readyNodes = []) {st : GraphStatus}
    (h : nodes.quiescence.status = some st) : nodes.StatusAgrees st := by
  unfold quiescence at h
  simp only [hquiet, ne_eq, not_true_eq_false, or_false, List.mem_map] at h
  split at h
  · rename_i hbusy
    cases h
    exact hbusy.2
  rename_i hbusy
  have hrunning : ∀ n ∈ nodes, n.status ≠ .running := by
    intro n hn hs
    exact hbusy ⟨.inl ⟨n, hn, hs⟩, n, hn, hs⟩
  split at h
  · rename_i hfailed
    cases h
    exact ⟨hfailed, hrunning⟩
  rename_i hfailed
  split at h
  · cases h
    trivial
  rename_i hcancelled
  split at h
  · rename_i hwaiting
    cases h
    refine ⟨hwaiting, fun n hn => ⟨hrunning n hn, ?_, ?_⟩⟩
    · exact fun hs => hfailed ⟨n, hn, hs⟩
    · exact fun hs => hcancelled ⟨n, hn, hs⟩
  split at h
  · rename_i hmet
    cases h
    exact fun n hn => hmet _ (List.mem_map_of_mem hn)
  · cases h

theorem terminal_of_settle {nodes : NodeTable} {st : GraphStatus}
    (h : nodes.quiescence = .settle st) : st.Terminal := by
  unfold quiescence at h
  dsimp only at h
  split at h
  · cases h
  split at h
  · cases h
    exact .inr (.inl rfl)
  split at h
  · cases h
    exact .inr (.inr rfl)
  split at h
  · cases h
  split at h
  · cases h
    exact .inl rfl
  · cases h

theorem mem_dependents {nodes : NodeTable} {key dep : String} :
    key ∈ nodes.dependents dep ↔ ∃ n ∈ nodes, n.key = key ∧ dep ∈ n.after := by
  simp only [dependents, List.mem_flatMap, List.mem_map, List.mem_filter, decide_eq_true_eq]
  constructor
  · rintro ⟨n, hn, d, ⟨hd, rfl⟩, rfl⟩
    exact ⟨n, hn, rfl, hd⟩
  · rintro ⟨n, hn, rfl, hd⟩
    exact ⟨n, hn, dep, ⟨hd, rfl⟩, rfl⟩

/-- The rerun set is what the named nodes reach along dependents, less what is pending. -/
theorem mem_rerunFrom {nodes : NodeTable} (hn : (nodes.map fun n => n.key).Nodup)
    {named : List String} (hnamed : ∀ k ∈ named, k ∈ nodes.map fun n => n.key) {key : String} :
    key ∈ nodes.rerunFrom named ↔
      (∃ k ∈ named, Relation.ReflTransGen (fun a b => b ∈ nodes.dependents a) k key) ∧
        ∃ n ∈ nodes, n.key = key ∧ n.status ≠ .pending := by
  have hsucc : ∀ k ∈ nodes.map fun n => n.key, ∀ d ∈ nodes.dependents k,
      d ∈ nodes.map fun n => n.key := by
    intro k _ d hd
    obtain ⟨n, hn, rfl, _⟩ := mem_dependents.mp hd
    exact List.mem_map_of_mem hn
  rw [rerunFrom, List.mem_filter, Digraph.mem_closure_iff hn hsucc hnamed]
  simp

/-- The nodes a resume starts from: by default those that failed. -/
def resumeStart (nodes : NodeTable) (named : Option (List String)) : List String :=
  named.getD ((nodes.filter fun n => n.status = .failed).map fun n => n.key)

theorem rerunClosure_ok {nodes : NodeTable} {id : GraphId} {named : Option (List String)}
    {rerun : List String} (h : nodes.rerunClosure id named = .ok rerun) :
    ∃ start, (∀ k ∈ start, k ∈ nodes.map fun n => n.key) ∧
      (∀ k, k ∈ start ↔ k ∈ nodes.resumeStart named) ∧ rerun = nodes.rerunFrom start := by
  unfold rerunClosure at h
  cases named with
  | none =>
    cases h
    refine ⟨_, fun k hk => ?_, fun k => Iff.rfl, rfl⟩
    obtain ⟨n, hn, rfl⟩ := List.mem_map.mp hk
    exact List.mem_map_of_mem (List.mem_filter.mp hn).1
  | some named =>
    dsimp only at h
    split at h
    · cases h
    · rename_i hunknown
      cases h
      refine ⟨_, fun k hk => ?_, fun k => List.mem_dedup, rfl⟩
      by_contra hmem
      have hbad : k ∈ (named.filter fun k => k ∉ nodes.map fun n => n.key).dedup.insertionSort
          (· ≤ ·) := by
        rw [List.mem_insertionSort, List.mem_dedup, List.mem_filter]
        exact ⟨List.mem_dedup.mp hk, by simpa using hmem⟩
      exact List.ne_nil_of_mem hbad (not_not.mp hunknown)

/-- Whatever ran below a rewound node is rewound with it. -/
theorem rerun_downstream {nodes : NodeTable} (hn : (nodes.map fun n => n.key).Nodup)
    {id : GraphId} {named : Option (List String)} {rerun : List String}
    (h : nodes.rerunClosure id named = .ok rerun) {n : QraftGraphNode} (hmem : n ∈ nodes)
    (hs : n.status ≠ .pending) {d : String} (hd : d ∈ n.after) (hr : d ∈ rerun) :
    n.key ∈ rerun := by
  obtain ⟨start, hstart, -, rfl⟩ := rerunClosure_ok h
  obtain ⟨⟨k, hk, hpath⟩, _⟩ := (mem_rerunFrom hn hstart).mp hr
  refine (mem_rerunFrom hn hstart).mpr ⟨⟨k, hk, ?_⟩, n, hmem, rfl, hs⟩
  exact hpath.tail (mem_dependents.mpr ⟨n, hmem, rfl, hd⟩)

theorem consistent_reset {nodes : NodeTable} (hc : Consistent nodes) {rerun : List String}
    (hdown : ∀ n ∈ nodes, n.status ≠ .pending → ∀ d ∈ n.after, d ∈ rerun → n.key ∈ rerun) :
    Consistent (Rows.updateWhere (fun n => n.key ∈ rerun) GraphState.resetNode nodes) := by
  refine ⟨?_, ?_, ?_⟩
  · have hplan := @plan_updateWhere nodes (fun n => n.key ∈ rerun) GraphState.resetNode
      fun _ => ⟨rfl, rfl⟩
    rw [hplan]
    exact hc.plan
  · intro n' hn'
    obtain ⟨n, hn, rfl⟩ := Rows.mem_updateWhere.mp hn'
    split
    · exact ⟨by simp [GraphState.resetNode], by simp [GraphState.resetNode]⟩
    · exact hc.rows n hn
  · intro n' hn' hs d hd
    obtain ⟨n, hn, rfl⟩ := Rows.mem_updateWhere.mp hn'
    split at hs
    · simp [GraphState.resetNode, NodeStatus.Started] at hs
    · rename_i hkeep
      rw [if_neg hkeep] at hd
      obtain ⟨m, hm, rfl, hmet⟩ := depMet_iff.mp (hc.deps n hn hs d hd)
      have hm' : ¬ (decide (m.key ∈ rerun) = true) := by
        intro hmr
        exact hkeep (by simpa using hdown n hn hs.1 m.key hd (by simpa using hmr))
      have hrow := Rows.mem_updateWhere_of_mem (f := GraphState.resetNode)
        (p := fun n : QraftGraphNode => n.key ∈ rerun) hm
      rw [if_neg hm'] at hrow
      exact depMet_iff.mpr ⟨m, hrow, rfl, hmet⟩

end NodeTable

namespace GraphState
open NodeTable

/-- A graph between transactions: consistent nodes, `settled_at` exactly on a terminal
status, nothing ready unless cancelled, and a status that agrees with the nodes. -/
structure Valid (s : GraphState) : Prop where
  nodes : Consistent s.nodes
  settled : s.graph.settledAt = none ↔ ¬ s.graph.status.Terminal
  quiet : s.graph.status ≠ .cancelled → s.nodes.readyNodes = []
  status : s.nodes.StatusAgrees s.graph.status
  total : .fellThrough ∉ s.journal

/-- A running graph inside a transaction that is about to look for quiescence. -/
structure Advancing (s : GraphState) : Prop where
  nodes : Consistent s.nodes
  running : s.graph.status = .running
  unsettled : s.graph.settledAt = none
  total : .fellThrough ∉ s.journal

theorem Valid.live {s : GraphState} (h : s.Valid) (ht : ¬ s.graph.status.Terminal) : s.Live :=
  ⟨h.settled.mpr ht, (live_iff_not_terminal _).mp ht⟩

theorem Valid.no_running {s : GraphState} (h : s.Valid) (hr : s.graph.status ≠ .running)
    (hc : s.graph.status ≠ .cancelled) : ∀ n ∈ s.nodes, n.status ≠ .running := by
  have hs := h.status
  intro n hn
  cases hg : s.graph.status with
  | running => exact absurd hg hr
  | cancelled => exact absurd hg hc
  | waitingApproval =>
    rw [hg] at hs
    exact (hs.2 n hn).1
  | failed =>
    rw [hg] at hs
    exact hs.2 n hn
  | succeeded =>
    rw [hg] at hs
    intro hrun
    have hmet := hs n hn
    simp [hrun, NodeStatus.Met] at hmet

theorem wake_status {g : QraftGraph} (h : ¬ g.status.Terminal) : (wake g).status = .running := by
  rcases (live_iff_not_terminal _).mp h with hs | hs
  · simp [wake, hs]
  · simp [wake, hs]

theorem settle_valid {s : GraphState} {status : GraphStatus} {now : Time} (hn : Consistent s.nodes)
    (ht : .fellThrough ∉ s.journal) (hst : status.Terminal)
    (hq : status ≠ .cancelled → s.nodes.readyNodes = []) (ha : s.nodes.StatusAgrees status)
    (hl : s.Live) : (s.settle status now).1.Valid := by
  rcases settle_cases s status now with ⟨hnot, _⟩ | ⟨g, _, rfl, he⟩
  · exact absurd hl hnot
  · rw [he]
    refine ⟨?_, ?_, ?_, ?_, ?_⟩
    · simpa using hn
    · simpa using hst
    · simpa using hq
    · simpa using ha
    · simpa using ht

/-- Looking for quiescence with nothing ready leaves a valid graph. -/
theorem maybeSettle_valid {s : GraphState} {now : Time} (h : s.Advancing)
    (hq : s.nodes.readyNodes = []) : (s.maybeSettle now).1.Valid := by
  have hlive : s.Live := ⟨h.unsettled, .inl h.running⟩
  have hagrees := @quiescence_agrees s.nodes hq
  unfold maybeSettle
  cases hv : s.nodes.quiescence with
  | busy =>
    rw [hv] at hagrees
    refine ⟨h.nodes, ?_, fun _ => hq, ?_, h.total⟩
    · simp [h.unsettled, h.running, GraphStatus.Terminal]
    · rw [h.running]
      exact hagrees rfl
  | settle status =>
    rw [hv] at hagrees
    exact settle_valid h.nodes h.total (terminal_of_settle hv) (fun _ => hq) (hagrees rfl) hlive
  | park =>
    rw [hv] at hagrees
    simp only [h.running, if_true]
    refine ⟨h.nodes, ?_, fun _ => hq, hagrees rfl, h.total⟩
    simp [h.unsettled, GraphStatus.Terminal]
  | fallThrough => exact absurd hv (h.nodes.quiescence_ne_fallThrough hq)

theorem dispatchFrontier_total {conf : RetryDefaults} {now : Time} {s s' : GraphState}
    (hc : Consistent s.nodes) (ht : .fellThrough ∉ s.journal)
    (h : dispatchFrontier conf now s = .ok s') : .fellThrough ∉ s'.journal := by
  apply dispatchFrontier_invariant (fun t => JournalEntry.fellThrough ∉ t.journal) _ hc ht h
  intro t node t' _ _ ht hturn
  rcases dispatchOrPark_cases hturn with rfl | ⟨task, _, rfl⟩
  · exact ht
  · simpa [afterDispatch] using ht

/-- Dispatching the frontier and then looking for quiescence. -/
theorem advance_valid {conf : RetryDefaults} {now : Time} {s t : GraphState} (hs : s.Advancing)
    (h : dispatchFrontier conf now s = .ok t) : (t.maybeSettle now).1.Valid := by
  obtain ⟨hgraph, _, hnodes, hquiet⟩ := dispatchFrontier_ok hs.nodes h
  refine maybeSettle_valid ⟨hnodes, ?_, ?_, dispatchFrontier_total hs.nodes hs.total h⟩
    (hquiet hs.running)
  · rw [hgraph, hs.running]
  · rw [hgraph, hs.unsettled]

theorem Inserted.consistent {plan : GraphPlan} {id : GraphId} {s : GraphState}
    (hins : Inserted plan id s) (hcheck : plan.check = .ok ()) : Consistent s.nodes := by
  rw [hins.nodes]
  refine ⟨plan_accepted (GraphPlan.accepted_of_check hcheck), ?_, ?_⟩
  · intro n hn
    obtain ⟨i, hi, rfl⟩ := List.mem_mapIdx.mp hn
    exact ⟨by simp [GraphPlan.nodeRow], by simp [GraphPlan.nodeRow]⟩
  · intro n hn hs
    obtain ⟨i, hi, rfl⟩ := List.mem_mapIdx.mp hn
    exact absurd rfl hs.1

theorem start_valid {conf : RetryDefaults} {plan : GraphPlan} {id : GraphId} {now : Time}
    {s : GraphState} (h : start conf plan id now = .ok s) : s.Valid := by
  obtain ⟨s₀, t, hcheck, hins, ht, rfl⟩ := start_ok h
  refine advance_valid ?_ ht
  exact ⟨hins.consistent hcheck, hins.status, hins.settledAt, by simp [hins.journal]⟩

theorem consistent_skip {nodes : NodeTable} (hc : Consistent nodes) (key : String)
    (reason : Option String) (now : Time) :
    Consistent (Rows.updateWhere (fun n => n.key = key && n.status = .pending)
      (skipNode reason now) nodes) := by
  apply hc.updateWhere
  · exact fun _ => ⟨rfl, rfl⟩
  · intro n hn hp
    simp only [Bool.and_eq_true, decide_eq_true_eq] at hp
    have hs := hp.2
    have hb := (hc.rows n hn).bound
    simp only [hs, reduceCtorEq, or_self, iff_false, not_not] at hb
    exact ⟨by simp [skipNode, hb], by simp [skipNode]⟩
  · intro n _ _ _
    exact .inr rfl
  · intro n _ _ hs
    exact absurd rfl hs.2

theorem skip_valid {conf : RetryDefaults} {s : GraphState} {key : String} {reason : Option String}
    {now : Time} {r : GraphState × Option QraftGraph} (hv : s.Valid)
    (h : s.skip conf key reason now = .ok r) : r.1.Valid := by
  obtain ⟨t, hrun, ht, rfl⟩ := skip_ok h
  refine advance_valid ?_ ht
  refine ⟨consistent_skip hv.nodes key reason now, hrun, ?_, hv.total⟩
  exact hv.settled.mpr (by simp [hrun, GraphStatus.Terminal])

theorem cancel_valid {s : GraphState} {now : Time} {r : GraphState × Option QraftGraph}
    (hv : s.Valid) (h : s.cancel now = .ok r) : r.1.Valid := by
  obtain ⟨hl, rfl⟩ := cancel_ok h
  exact settle_valid hv.nodes hv.total (.inr (.inr rfl)) (fun hne => absurd rfl hne) trivial hl

theorem Valid.consistent_rewind {s : GraphState} (hv : s.Valid) {nodes : Option (List String)}
    {rerun : List String} (h : s.nodes.rerunClosure s.graph.id nodes = .ok rerun) (now : Time) :
    Consistent (s.recordSettlement.rewind rerun now).nodes := by
  simp only [rewind, recordSettlement_nodes]
  apply consistent_reset hv.nodes
  intro n hn hs d hd hr
  exact rerun_downstream hv.nodes.nodup h hn hs hd hr

theorem resume_valid {conf : RetryDefaults} {s : GraphState} {nodes : Option (List String)}
    {now : Time} {r : GraphState × Nat} (hv : s.Valid) (h : s.resume conf nodes now = .ok r) :
    r.1.Valid := by
  obtain ⟨rerun, t, _, hrerun, _, ht, rfl⟩ := resume_ok h
  refine advance_valid ?_ ht
  exact ⟨hv.consistent_rewind hrerun now, rfl, rfl, by simpa [rewind] using hv.total⟩

section Parked
variable {nodes : NodeTable} {node : QraftGraphNode}

theorem consistent_release (hc : Consistent nodes) (hn : node ∈ nodes)
    (hs : node.status = .waitingApproval) :
    Consistent (Rows.updateWhere (fun n => n.key = node.key) release nodes) := by
  have hrow := hc.rows node hn
  have hb := hrow.bound
  have ho := hrow.open_iff
  simp only [hs, reduceCtorEq, or_self, iff_false, not_not, false_or, iff_true] at hb ho
  have hsel : ∀ n ∈ nodes, decide (n.key = node.key) = true → n = node := fun n hm hk =>
    hc.eq_of_key hm hn (by simpa using hk)
  apply hc.updateWhere
  · exact fun _ => ⟨rfl, rfl⟩
  · intro n hm hk
    rw [hsel n hm hk]
    exact ⟨by simp [release, hb], by simp [release, ho]⟩
  · intro n hm hk hmet
    rw [hsel n hm hk, hs] at hmet
    simp [NodeStatus.Met] at hmet
  · intro n _ _ hst
    exact absurd rfl hst.1

private theorem consistent_reject (hc : Consistent nodes) (hn : node ∈ nodes)
    (hs : node.status = .waitingApproval) (reason : Option String) (now : Time) :
    Consistent (Rows.updateWhere (fun n => n.key = node.key) (rejectNode reason now) nodes) := by
  have hb := (hc.rows node hn).bound
  simp only [hs, reduceCtorEq, or_self, iff_false, not_not] at hb
  have hsel : ∀ n ∈ nodes, decide (n.key = node.key) = true → n = node := fun n hm hk =>
    hc.eq_of_key hm hn (by simpa using hk)
  apply hc.updateWhere
  · exact fun _ => ⟨rfl, rfl⟩
  · intro n hm hk
    rw [hsel n hm hk]
    exact ⟨by simp [rejectNode, hb], by simp [rejectNode]⟩
  · intro n hm hk hmet
    rw [hsel n hm hk, hs] at hmet
    simp [NodeStatus.Met] at hmet
  · intro n hm hk _
    rw [hsel n hm hk]
    exact hc.deps node hn (by simp [hs, NodeStatus.Started])

/-- Writing a parked row that stays unmet changes no dependency. -/
private theorem depMet_parked {f : QraftGraphNode → QraftGraphNode} (hc : Consistent nodes)
    (hn : node ∈ nodes) (hs : node.status = .waitingApproval) (hkey : ∀ n, (f n).key = n.key)
    (hf : ∀ n, ¬ (f n).status.Met) :
    depMet (Rows.updateWhere (fun n => n.key = node.key) f nodes) = nodes.depMet := by
  apply depMet_updateWhere_eq hkey
  intro n hm hk
  refine ⟨?_, hf n⟩
  rw [hc.eq_of_key hm hn (by simpa using hk), hs]
  simp [NodeStatus.Met]

/-- Writing a parked row makes no other node ready. -/
private theorem readyNodes_parked {f : QraftGraphNode → QraftGraphNode} (hc : Consistent nodes)
    (hn : node ∈ nodes) (hs : node.status = .waitingApproval) (hkey : ∀ n, (f n).key = n.key)
    (hf : ∀ n, ¬ (f n).status.Met) {n : QraftGraphNode} (hk : n.key ≠ node.key)
    (hr : n ∈ readyNodes (Rows.updateWhere (fun n => n.key = node.key) f nodes)) :
    n ∈ nodes.readyNodes := by
  obtain ⟨hm, hp, hd⟩ := mem_readyNodes.mp hr
  rw [depMet_parked hc hn hs hkey hf] at hd
  obtain ⟨m, hmem, rfl⟩ := Rows.mem_updateWhere.mp hm
  by_cases hmk : m.key = node.key
  · simp only [hmk, decide_true, if_true, hkey] at hk
    exact absurd rfl hk
  · simp only [hmk, decide_false, Bool.false_eq_true, if_false] at hp hd ⊢
    exact mem_readyNodes.mpr ⟨hmem, hp, hd⟩

end Parked

theorem approve_valid {conf : RetryDefaults} {s s' : GraphState} {key : String} {now : Time}
    (hv : s.Valid) (h : s.approve conf key now = .ok s') : s'.Valid := by
  obtain ⟨node, task, hlive, hn, rfl, hw, _, date, rfl⟩ := approve_ok h
  have hc := consistent_release hv.nodes hn hw
  have hmet := depMet_parked hv.nodes hn hw (f := release) (fun _ => rfl)
    (fun _ => by simp [release, NodeStatus.Met])
  have hup := takesUp_bindTask s.store.nextId now
  have hquiet : s.nodes.readyNodes = [] := hv.quiet (fun hx => hlive (.inr (.inr hx)))
  have hcons : Consistent (takeUp (bindTask s.store.nextId now) node.key
      (Rows.updateWhere (fun n => n.key = node.key) release s.nodes)) := by
    apply consistent_takeUp hup hc
    intro n hm hk _ d hd
    obtain ⟨m, hmem, rfl⟩ := Rows.mem_updateWhere.mp hm
    have hkm : m.key = node.key := by
      by_contra hp
      simp [hp] at hk
    have hmn := hv.nodes.eq_of_key hmem hn hkm
    rw [hmet]
    apply hv.nodes.deps node hn (by simp [hw, NodeStatus.Started]) d
    simpa [hmn, release] using hd
  have hnil : readyNodes (takeUp (bindTask s.store.nextId now) node.key
      (Rows.updateWhere (fun n => n.key = node.key) release s.nodes)) = [] := by
    rw [List.eq_nil_iff_forall_not_mem]
    intro n hr
    obtain ⟨hr, hk⟩ := (mem_readyNodes_takeUp hup).mp hr
    have hready := readyNodes_parked hv.nodes hn hw (f := release) (fun _ => rfl)
      (fun _ => by simp [release, NodeStatus.Met]) hk hr
    exact List.ne_nil_of_mem hready hquiet
  have hrunning : ∃ n ∈ takeUp (bindTask s.store.nextId now) node.key
      (Rows.updateWhere (fun n => n.key = node.key) release s.nodes), n.status = .running := by
    refine ⟨bindTask s.store.nextId now (release node), ?_, rfl⟩
    have hrel := Rows.mem_updateWhere_of_mem (f := release)
      (p := fun n : QraftGraphNode => n.key = node.key) hn
    have hbound := Rows.mem_updateWhere_of_mem (f := bindTask s.store.nextId now)
      (p := fun n : QraftGraphNode => n.key = node.key && n.status = .pending) hrel
    simpa [takeUp, release] using hbound
  have hwake : (wake s.graph).status = .running := wake_status hlive
  refine ⟨hcons, ?_, fun _ => hnil, ?_, by simpa [afterDispatch, updateNodes] using hv.total⟩
  · have hopen : (wake s.graph).settledAt = none := (hv.live hlive).1
    simp [hwake, hopen, GraphStatus.Terminal]
  · rw [hwake]
    exact hrunning

theorem reject_valid {s : GraphState} {key : String} {reason : Option String} {now : Time}
    {r : GraphState × Option QraftGraph} (hv : s.Valid) (h : s.reject key reason now = .ok r) :
    r.1.Valid := by
  obtain ⟨node, hlive, hn, rfl, hw, rfl⟩ := reject_ok h
  have hc := consistent_reject hv.nodes hn hw reason now
  have hquiet : s.nodes.readyNodes = [] := hv.quiet (fun hx => hlive (.inr (.inr hx)))
  have hnil : readyNodes (Rows.updateWhere (fun n => n.key = node.key) (rejectNode reason now)
      s.nodes) = [] := by
    rw [List.eq_nil_iff_forall_not_mem]
    intro n hr
    have hk : n.key ≠ node.key := by
      obtain ⟨hm, hs, _⟩ := mem_readyNodes.mp hr
      obtain ⟨m, _, rfl⟩ := Rows.mem_updateWhere.mp hm
      intro hp
      by_cases hmk : m.key = node.key
      · simp [hmk, rejectNode] at hs
      · simp [hmk] at hp
    have hready := readyNodes_parked hv.nodes hn hw (f := rejectNode reason now) (fun _ => rfl)
      (fun _ => by simp [rejectNode, NodeStatus.Met]) hk hr
    exact List.ne_nil_of_mem hready hquiet
  exact maybeSettle_valid ⟨hc, wake_status hlive, (hv.live hlive).1, hv.total⟩ hnil

theorem consistent_recordOutcome {nodes : NodeTable} {node : QraftGraphNode}
    (hc : Consistent nodes) (hn : node ∈ nodes) (hs : node.status = .running)
    {outcome : NodeStatus} (ho : outcome = .succeeded ∨ outcome = .failed) (now : Time) :
    Consistent (Rows.updateWhere (fun n => n.key = node.key && n.settledAt = none)
      (recordOutcome outcome now) nodes) := by
  have hb := (hc.rows node hn).bound
  simp only [hs, true_or, iff_true] at hb
  have hsel : ∀ n ∈ nodes, (n.key = node.key && n.settledAt = none) = true → n = node := by
    intro n hm hk
    simp only [Bool.and_eq_true, decide_eq_true_eq] at hk
    exact hc.eq_of_key hm hn hk.1
  apply hc.updateWhere
  · exact fun _ => ⟨rfl, rfl⟩
  · intro n hm hk
    rw [hsel n hm hk]
    refine ⟨by rcases ho with rfl | rfl <;> simp [recordOutcome, hb], ?_⟩
    rcases ho with rfl | rfl <;> simp [recordOutcome]
  · intro n hm hk hmet
    rw [hsel n hm hk, hs] at hmet
    simp [NodeStatus.Met] at hmet
  · intro n hm hk _
    rw [hsel n hm hk]
    exact hc.deps node hn (by simp [hs, NodeStatus.Started])

theorem handleNodeCompletion_valid {conf : RetryDefaults} {s : GraphState} {task : QraftTask}
    {now : Time} {r : GraphState × Option QraftGraph} (hv : s.Valid)
    (h : s.handleNodeCompletion conf task now = .ok r) : r.1.Valid := by
  rcases handleNodeCompletion_cases h with
    rfl | ⟨node, outcome, recorded, hn, _, hout, hbound, hopen, rfl, hrest⟩
  · exact hv
  · have hs := (hv.nodes.rows node hn).running_of_open (by simp [hbound]) hopen
    have hc := consistent_recordOutcome hv.nodes hn hs (taskOutcome_cases hout) now
    rcases hrest with ⟨hr, t, ht, rfl⟩ | ⟨hr, rfl⟩
    · refine advance_valid ?_ ht
      refine ⟨hc, hr, hv.settled.mpr (by simp [hr, GraphStatus.Terminal]), ?_⟩
      simpa using hv.total
    · have hcancelled : s.graph.status = .cancelled := by
        by_contra hne
        exact hv.no_running hr hne node hn hs
      refine ⟨hc, hv.settled, fun hne => absurd hcancelled hne, ?_, by simpa using hv.total⟩
      simp only [updateNodes, hcancelled]
      trivial

end GraphState
end Qraft
