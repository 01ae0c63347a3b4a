import Qraft.Graphs.Transitions

/-! Node tables in which every started node has its dependencies met. -/
namespace Qraft

/-- Statuses a node reaches only through the frontier. -/
def NodeStatus.Started (s : NodeStatus) : Prop := s ≠ .pending ∧ s ≠ .skipped

/-- A node is bound to a task while it runs and after the task decided it, and carries
`settled_at` once its status is final. -/
structure QraftGraphNode.WellFormed (n : QraftGraphNode) : Prop where
  bound : n.task ≠ none ↔ n.status = .running ∨ n.status = .succeeded ∨ n.status = .failed
  open_iff : n.settledAt = none ↔
    n.status = .pending ∨ n.status = .running ∨ n.status = .waitingApproval

theorem QraftGraphNode.WellFormed.running_of_open {n : QraftGraphNode} (h : n.WellFormed)
    (ht : n.task ≠ none) (ho : n.settledAt = none) : n.status = .running := by
  rcases h.bound.mp ht with hs | hs | hs
  · exact hs
  · simpa [hs] using h.open_iff.mp ho
  · simpa [hs] using h.open_iff.mp ho

/-- Keys with their dependencies, over distinct keys that the dependencies do not
leave; below any property some key has it and no dependency of that key does. -/
structure Acyclic (plan : List (String × List String)) : Prop where
  nodup : (plan.map Prod.fst).Nodup
  closed : ∀ c ∈ plan, ∀ d ∈ c.2, d ∈ plan.map Prod.fst
  minimal : ∀ p : String → Prop, ∀ c ∈ plan, p c.1 → ∃ c ∈ plan, p c.1 ∧ ∀ d ∈ c.2, ¬ p d

namespace NodeTable

/-- The two columns that no transaction writes. -/
def plan (nodes : NodeTable) : List (String × List String) := nodes.map fun n => (n.key, n.after)

theorem plan_keys (nodes : NodeTable) : nodes.plan.map Prod.fst = nodes.map fun n => n.key := by
  simp [plan]

theorem plan_updateWhere {nodes : NodeTable} {p : QraftGraphNode → Bool}
    {f : QraftGraphNode → QraftGraphNode} (hf : ∀ n, (f n).key = n.key ∧ (f n).after = n.after) :
    plan (Rows.updateWhere p f nodes) = nodes.plan := by
  apply Rows.map_updateWhere
  intro n _ _
  rw [(hf n).1, (hf n).2]

theorem plan_accepted {specs : List NodeSpec} (h : GraphPlan.Accepted specs) :
    Acyclic (plan (specs.mapIdx (GraphPlan.nodeRow specs))) := by
  have hplan : plan (specs.mapIdx (GraphPlan.nodeRow specs)) =
      specs.map fun n => (n.key, n.after) := by
    apply List.ext_getElem
    · simp [plan]
    · intro i _ _
      simp [plan, GraphPlan.nodeRow]
  have hkeys : (specs.map fun n => (n.key, n.after)).map Prod.fst = GraphPlan.keys specs := by
    simp [GraphPlan.keys]
  rw [hplan]
  refine ⟨hkeys ▸ h.nodup, ?_, ?_⟩
  · intro c hc d hd
    obtain ⟨n, hn, rfl⟩ := List.mem_map.mp hc
    rw [hkeys]
    exact h.closed n hn d hd
  · intro p c hc hp
    obtain ⟨n, hn, rfl⟩ := List.mem_map.mp hc
    obtain ⟨l, hl, hall⟩ := h.order
    have hmem : n.key ∈ l := hall _ (List.mem_map_of_mem hn)
    obtain ⟨m, _, ⟨hpm, hkm⟩, hmin⟩ := hl.exists_minimal
      (fun k => p k ∧ k ∈ GraphPlan.keys specs) hmem ⟨hp, List.mem_map_of_mem hn⟩
    obtain ⟨r, hr, rfl⟩ := List.mem_map.mp hkm
    refine ⟨(r.key, r.after), List.mem_map_of_mem hr, hpm, ?_⟩
    intro d hd hpd
    rw [GraphPlan.edges_of_mem h.nodup hr] at hmin
    exact hmin d hd ⟨hpd, h.closed r hr d hd⟩

theorem depMet_iff {nodes : NodeTable} {d : String} :
    nodes.depMet d = true ↔ ∃ n ∈ nodes, n.key = d ∧ n.status.Met := by
  simp [depMet]

theorem mem_readyNodes {nodes : NodeTable} {n : QraftGraphNode} :
    n ∈ nodes.readyNodes ↔
      n ∈ nodes ∧ n.status = .pending ∧ ∀ d ∈ n.after, nodes.depMet d = true := by
  simp [readyNodes, ordered, and_assoc]

theorem readyNodes_keys_nodup {nodes : NodeTable} (h : (nodes.map fun n => n.key).Nodup) :
    (nodes.readyNodes.map fun n => n.key).Nodup := by
  have hpending : ((nodes.filter fun n => n.status = .pending).map fun n => n.key).Nodup :=
    h.sublist (List.filter_sublist.map _)
  have hordered : ((ordered (nodes.filter fun n => n.status = .pending)).map fun n => n.key).Nodup :=
    (((List.perm_insertionSort _ _).map _).nodup_iff).mpr hpending
  exact hordered.sublist (List.filter_sublist.map _)

/-- No pending node has all its dependencies met. -/
theorem readyNodes_eq_nil {nodes : NodeTable} :
    nodes.readyNodes = [] ↔
      ∀ n ∈ nodes, n.status = .pending → ¬ ∀ d ∈ n.after, nodes.depMet d = true := by
  rw [List.eq_nil_iff_forall_not_mem]
  constructor
  · intro h n hn hs hd
    exact h n (mem_readyNodes.mpr ⟨hn, hs, hd⟩)
  · intro h n hn
    obtain ⟨hn, hs, hd⟩ := mem_readyNodes.mp hn
    exact h n hn hs hd

/-- Distinct acyclic plan columns, rows that agree with their status, and met
dependencies below every started node. -/
structure Consistent (nodes : NodeTable) : Prop where
  plan : Acyclic nodes.plan
  rows : ∀ n ∈ nodes, n.WellFormed
  deps : ∀ n ∈ nodes, n.status.Started → ∀ d ∈ n.after, nodes.depMet d = true

theorem Consistent.nodup {nodes : NodeTable} (h : Consistent nodes) :
    (nodes.map fun n => n.key).Nodup :=
  plan_keys nodes ▸ h.plan.nodup

theorem Consistent.eq_of_key {nodes : NodeTable} (h : Consistent nodes) {n m : QraftGraphNode}
    (hn : n ∈ nodes) (hm : m ∈ nodes) (hk : n.key = m.key) : n = m :=
  Rows.eq_of_key_eq h.nodup hn hm hk

theorem node?_eq_some {nodes : NodeTable} {key : String} {n : QraftGraphNode}
    (h : nodes.node? key = some n) : n ∈ nodes ∧ n.key = key :=
  Rows.get?_eq_some h

theorem depMet_updateWhere {nodes : NodeTable} {p : QraftGraphNode → Bool}
    {f : QraftGraphNode → QraftGraphNode} (hkey : ∀ n, (f n).key = n.key)
    (hmet : ∀ n ∈ nodes, p n = true → n.status.Met → (f n).status.Met) {d : String}
    (h : nodes.depMet d = true) : depMet (Rows.updateWhere p f nodes) d = true := by
  obtain ⟨n, hn, hk, hs⟩ := depMet_iff.mp h
  refine depMet_iff.mpr ⟨_, Rows.mem_updateWhere_of_mem hn, ?_⟩
  split
  · rename_i hp
    exact ⟨(hkey n).trans hk, hmet n hn hp hs⟩
  · exact ⟨hk, hs⟩

/-- Rows that stay unmet leave every dependency as it was. -/
theorem depMet_updateWhere_eq {nodes : NodeTable} {p : QraftGraphNode → Bool}
    {f : QraftGraphNode → QraftGraphNode} (hkey : ∀ n, (f n).key = n.key)
    (hmet : ∀ n ∈ nodes, p n = true → ¬ n.status.Met ∧ ¬ (f n).status.Met) :
    depMet (Rows.updateWhere p f nodes) = nodes.depMet := by
  funext d
  rw [Bool.eq_iff_iff]
  constructor
  · intro h
    obtain ⟨n', hn', hk, hs⟩ := depMet_iff.mp h
    obtain ⟨n, hn, rfl⟩ := Rows.mem_updateWhere.mp hn'
    split at hs
    · rename_i hp
      exact absurd hs (hmet n hn hp).2
    · rename_i hp
      rw [if_neg hp] at hk
      exact depMet_iff.mpr ⟨n, hn, hk, hs⟩
  · exact depMet_updateWhere hkey fun n hn hp hs => absurd hs (hmet n hn hp).1

/-- A write that keeps the plan columns, writes well-formed rows, unmeets no
dependency and starts no node early keeps the table consistent. -/
theorem Consistent.updateWhere {nodes : NodeTable} (h : Consistent nodes)
    {p : QraftGraphNode → Bool} {f : QraftGraphNode → QraftGraphNode}
    (hcols : ∀ n, (f n).key = n.key ∧ (f n).after = n.after)
    (hrow : ∀ n ∈ nodes, p n = true → (f n).WellFormed)
    (hmet : ∀ n ∈ nodes, p n = true → n.status.Met → (f n).status.Met)
    (hdeps : ∀ n ∈ nodes, p n = true → (f n).status.Started →
      ∀ d ∈ n.after, nodes.depMet d = true) :
    Consistent (Rows.updateWhere p f nodes) := by
  have hkeep := fun {d} => @depMet_updateWhere nodes p f (fun n => (hcols n).1) hmet d
  refine ⟨(plan_updateWhere hcols).symm ▸ h.plan, ?_, ?_⟩
  · intro n' hn'
    obtain ⟨n, hn, rfl⟩ := Rows.mem_updateWhere.mp hn'
    split
    · rename_i hp
      exact hrow n hn hp
    · exact h.rows n hn
  · intro n' hn' hs d hd
    obtain ⟨n, hn, rfl⟩ := Rows.mem_updateWhere.mp hn'
    split at hs
    · rename_i hp
      rw [if_pos hp, (hcols n).2] at hd
      exact hkeep (hdeps n hn hp hs d hd)
    · rename_i hp
      rw [if_neg hp] at hd
      exact hkeep (h.deps n hn hs d hd)

/-- A consistent table with nothing ready settles or parks: a pending node would
have a pending node below it with every dependency met. -/
theorem Consistent.quiescence_ne_fallThrough {nodes : NodeTable} (h : Consistent nodes)
    (hquiet : nodes.readyNodes = []) : nodes.quiescence ≠ .fallThrough := by
  intro hfall
  unfold quiescence at hfall
  dsimp only at hfall
  split at hfall
  · cases hfall
  rename_i hbusy
  split at hfall
  · cases hfall
  rename_i hfailed
  split at hfall
  · cases hfall
  rename_i hcancelled
  split at hfall
  · cases hfall
  rename_i hwaiting
  split at hfall
  · cases hfall
  rename_i hunmet
  simp only [List.mem_map, not_exists, not_and] at hfailed hcancelled hwaiting
  have hrunning : ∀ n ∈ nodes, n.status ≠ .running := by
    intro n hn hs
    have hmem : NodeStatus.running ∈ nodes.map fun n => n.status := List.mem_map.mpr ⟨n, hn, hs⟩
    exact hbusy ⟨.inl hmem, .inl hmem⟩
  have hcases : ∀ n ∈ nodes, n.status = .pending ∨ n.status.Met := by
    intro n hn
    cases hs : n.status with
    | pending => exact .inl rfl
    | running => exact absurd hs (hrunning n hn)
    | succeeded => exact .inr (.inl rfl)
    | failed => exact absurd hs (hfailed n hn)
    | cancelled => exact absurd hs (hcancelled n hn)
    | skipped => exact .inr (.inr rfl)
    | waitingApproval => exact absurd hs (hwaiting n hn)
  have hpending : ∃ n ∈ nodes, n.status = .pending := by
    by_contra hnone
    apply hunmet
    intro st hst
    obtain ⟨n, hn, rfl⟩ := List.mem_map.mp hst
    exact (hcases n hn).resolve_left fun hs => hnone ⟨n, hn, hs⟩
  obtain ⟨n, hn, hs⟩ := hpending
  obtain ⟨c, hc, hmin⟩ := h.plan.minimal
    (fun k => ∃ m ∈ nodes, m.key = k ∧ m.status = .pending) (n.key, n.after)
    (List.mem_map_of_mem hn) ⟨n, hn, rfl, hs⟩
  obtain ⟨⟨m, hm, hk, hms⟩, hbelow⟩ := hmin
  obtain ⟨r, hr, rfl⟩ := List.mem_map.mp hc
  have hmr : m = r := h.eq_of_key hm hr hk
  subst hmr
  refine readyNodes_eq_nil.mp hquiet m hm hms ?_
  intro d hd
  have hdk := h.plan.closed _ hc d hd
  rw [plan_keys] at hdk
  obtain ⟨e, he, rfl⟩ := List.mem_map.mp hdk
  have hmet : e.status.Met := (hcases e he).resolve_left fun hs => hbelow e.key hd ⟨e, he, rfl, hs⟩
  exact depMet_iff.mpr ⟨e, he, rfl, hmet⟩

end NodeTable
end Qraft
