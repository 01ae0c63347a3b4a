import Qraft.Graphs.Generations

/-! Generations that a resume has closed: the task of each has reported its outcome. -/
namespace Qraft

namespace GraphState
open NodeTable

/-- What dispatching, parking, skipping and settling leave alone: keys, generations and outcomes. Tasks
are created for the generations there are. -/
structure Steady (s s' : GraphState) : Prop where
  rows : ∀ n' ∈ s'.nodes, ∃ n ∈ s.nodes, n'.key = n.key ∧ n'.generation = n.generation
  creations : ∀ c ∈ s'.creations, c ∈ s.creations ∨ ∃ n ∈ s.nodes, n.key = c.1 ∧ n.generation = c.2.1
  outcomes : s'.outcomes = s.outcomes

/-- Each task of an earlier generation of a node has reported its outcome. -/
def Concluded (s : GraphState) : Prop :=
  ∀ k g t, (k, g, t) ∈ s.creations → ∀ n ∈ s.nodes, n.key = k → g < n.generation →
    ∃ o, (k, g, t, o) ∈ s.outcomes

/-- What a call does before it moves on: a completion writes an outcome, a resume begins generations. -/
inductive Begins (s : GraphState) (e : GraphEvent) (now : Time) : GraphState → Prop where
  | same : Begins s e now s
  | recorded {node : QraftGraphNode} {task : QraftTask} {outcome : NodeStatus} (he : e = .completion task)
      (hn : node ∈ s.nodes) (ht : node.task = some task.id) (ho : taskOutcome task.status = some outcome) :
      Begins s e now { s.updateNodes (fun n => n.key = node.key && n.settledAt = none)
          (recordOutcome outcome now) with
        journal := s.journal ++ [.outcomeRecorded node.key node.generation task.id outcome] }
  | rewound {nodes : Option (List String)} {rerun : List String} (he : e = .resume nodes)
      (hs : s.graph.status = .succeeded ∨ s.graph.status = .failed) :
      Begins s e now (s.recordSettlement.rewind rerun now)

section
variable {conf : RetryDefaults} {now : Time} {s t s' : GraphState} {e : GraphEvent}

theorem Steady.refl (s : GraphState) : Steady s s :=
  ⟨fun n hn => ⟨n, hn, rfl, rfl⟩, fun _ hc => .inl hc, rfl⟩

theorem Steady.trans (h : Steady s t) (h' : Steady t s') : Steady s s' := by
  refine ⟨?_, ?_, h'.outcomes.trans h.outcomes⟩
  · intro n' hn'
    obtain ⟨m, hm, hk, hg⟩ := h'.rows n' hn'
    obtain ⟨n, hn, hk', hg'⟩ := h.rows m hm
    exact ⟨n, hn, hk.trans hk', hg.trans hg'⟩
  · intro c hc
    rcases h'.creations c hc with hc | ⟨m, hm, hk, hg⟩
    · exact h.creations c hc
    · obtain ⟨n, hn, hk', hg'⟩ := h.rows m hm
      exact .inr ⟨n, hn, hk'.symm.trans hk, hg'.symm.trans hg⟩

/-- A write to node rows that leaves keys and generations alone. -/
theorem steady_write {p : QraftGraphNode → Bool} {f : QraftGraphNode → QraftGraphNode}
    (hf : ∀ n, (f n).key = n.key ∧ (f n).generation = n.generation) : Steady s (s.updateNodes p f) := by
  refine ⟨?_, fun _ hc => .inl hc, rfl⟩
  intro n' hn'
  obtain ⟨n, hn, rfl⟩ := Rows.mem_updateWhere.mp hn'
  refine ⟨n, hn, ?_⟩
  split
  · exact hf n
  · exact ⟨rfl, rfl⟩

theorem steady_dispatch {node : QraftGraphNode} (hn : node ∈ s.nodes) (task : QraftTask) (now : Time) :
    Steady s (s.afterDispatch node task now) := by
  refine ⟨?_, ?_, ?_⟩
  · intro n' hn'
    obtain ⟨n, hm, rfl⟩ := Rows.mem_updateWhere.mp hn'
    refine ⟨n, hm, ?_⟩
    split
    · exact ⟨rfl, rfl⟩
    · exact ⟨rfl, rfl⟩
  · intro c hc
    have hcre : (s.afterDispatch node task now).creations =
        s.creations ++ [(node.key, node.generation, s.store.nextId)] := by
      simp [creations, afterDispatch, JournalEntry.creation?]
    rw [hcre] at hc
    rcases List.mem_append.mp hc with hc | hc
    · exact .inl hc
    · rw [List.mem_singleton.mp hc]
      exact .inr ⟨node, hn, rfl, rfl⟩
  · simp [outcomes, afterDispatch, JournalEntry.outcome?]

theorem steady_frontier (hc : Consistent s.nodes) (h : dispatchFrontier conf now s = .ok s') :
    Steady s s' := by
  apply dispatchFrontier_invariant (Steady s) _ hc (.refl s) h
  intro t node t' _ hready ht hturn
  obtain ⟨hn, -, -⟩ := mem_readyNodes.mp hready
  rcases dispatchOrPark_cases hturn with rfl | ⟨task, -, rfl⟩
  · exact ht.trans (steady_write fun _ => ⟨rfl, rfl⟩)
  · exact ht.trans (steady_dispatch hn task now)

/-- Settling writes neither nodes nor what the journal says of tasks. -/
theorem steady_of_nodes (hn : s'.nodes = s.nodes) (hc : s'.creations = s.creations)
    (ho : s'.outcomes = s.outcomes) : Steady s s' := by
  refine ⟨?_, ?_, ho⟩
  · intro n hm
    rw [hn] at hm
    exact ⟨n, hm, rfl, rfl⟩
  · intro c hm
    rw [hc] at hm
    exact .inl hm

theorem steady_maybeSettle (s : GraphState) (now : Time) : Steady s (s.maybeSettle now).1 := by
  apply steady_of_nodes (maybeSettle_nodes s now)
  · exact maybeSettle_filterMap _ (fun _ _ _ => rfl) rfl s now
  · exact maybeSettle_filterMap _ (fun _ _ _ => rfl) rfl s now

theorem call_begins (hv : s.Valid) {r : GraphState × Option QraftGraph} (h : s.call conf now e = .ok r) :
    ∃ s₀, Begins s e now s₀ ∧ Consistent s₀.nodes ∧ Steady s₀ r.1 := by
  have plain (hm : Steady s r.1) : ∃ s₀, Begins s e now s₀ ∧ Consistent s₀.nodes ∧ Steady s₀ r.1 :=
    ⟨s, .same, hv.nodes, hm⟩
  rcases call_cases h with ⟨task, rfl, h⟩ | ⟨key, reason, rfl, h⟩ | ⟨rfl, h⟩ | ⟨key, rfl, -, h⟩ |
    ⟨key, reason, rfl, h⟩ | ⟨nodes, n, rfl, -, h⟩
  · rcases handleNodeCompletion_cases h with
      rfl | ⟨node, outcome, recorded, hn, -, hout, hbound, hopen, hrec, hrest⟩
    · exact plain (.refl s)
    · have hs := (hv.nodes.rows node hn).running_of_open (by simp [hbound]) hopen
      have hc := consistent_recordOutcome hv.nodes hn hs (taskOutcome_cases hout) now
      subst hrec
      refine ⟨_, .recorded rfl hn hbound hout, hc, ?_⟩
      rcases hrest with ⟨-, t, ht, rfl⟩ | ⟨-, rfl⟩
      · exact (steady_frontier hc ht).trans (steady_maybeSettle t now)
      · exact .refl _
  · apply plain
    obtain ⟨t, -, ht, rfl⟩ := skip_ok h
    have hskip : Steady s (s.updateNodes (fun n => n.key = key && n.status = .pending)
        (skipNode reason now)) := steady_write fun _ => ⟨rfl, rfl⟩
    have hfront := steady_frontier (consistent_skip hv.nodes key reason now) ht
    exact (hskip.trans hfront).trans (steady_maybeSettle t now)
  · apply plain
    obtain ⟨-, rfl⟩ := cancel_ok h
    apply steady_of_nodes (settle_nodes s _ now)
    · exact settle_filterMap _ (fun _ _ _ => rfl) s _ now
    · exact settle_filterMap _ (fun _ _ _ => rfl) s _ now
  · apply plain
    obtain ⟨node, task, -, hn, rfl, hw, ht, date, hr⟩ := approve_ok h
    have hrel : Steady s (s.updateNodes (fun n => n.key = node.key) release) :=
      steady_write fun _ => ⟨rfl, rfl⟩
    have hmem : release node ∈ (s.updateNodes (fun n => n.key = node.key) release).nodes := by
      have hrow := Rows.mem_updateWhere_of_mem (f := release)
        (p := fun n : QraftGraphNode => n.key = node.key) hn
      simpa [updateNodes] using hrow
    rw [hr]
    exact (hrel.trans (steady_dispatch hmem task now)).trans (steady_of_nodes rfl rfl rfl)
  · apply plain
    obtain ⟨node, -, hn, rfl, hw, rfl⟩ := reject_ok h
    have hrej : Steady s (s.updateNodes (fun n => n.key = node.key) (rejectNode reason now)) :=
      steady_write fun _ => ⟨rfl, rfl⟩
    have hwake : Steady s { s.updateNodes (fun n => n.key = node.key) (rejectNode reason now) with
        graph := wake s.graph } := hrej.trans (steady_of_nodes rfl rfl rfl)
    exact hwake.trans (steady_maybeSettle _ now)
  · obtain ⟨rerun, t, hs, hrerun, -, ht, hr⟩ := resume_ok h
    have hc := hv.consistent_rewind hrerun now
    have hfst : r.1 = (t.maybeSettle now).1 := (Prod.mk.inj hr).1
    rw [hfst]
    exact ⟨_, .rewound rfl hs, hc, (steady_frontier hc ht).trans (steady_maybeSettle t now)⟩

/-- A call adds at most the outcome of the completion it hears. -/
theorem call_outcomes (hv : s.Valid) {r : GraphState × Option QraftGraph} (h : s.call conf now e = .ok r)
    {k : String} {g : Nat} {t : TaskId} {o : NodeStatus} (ho : (k, g, t, o) ∈ r.1.outcomes) :
    (k, g, t, o) ∈ s.outcomes ∨
      ∃ task, e = .completion task ∧ t = task.id ∧ taskOutcome task.status = some o := by
  obtain ⟨s₀, hb, -, hsteady⟩ := call_begins hv h
  rw [hsteady.outcomes] at ho
  cases hb with
  | same => exact .inl ho
  | @recorded node task outcome he hn ht hout =>
    have houts : outcomes { s.updateNodes (fun n => n.key = node.key && n.settledAt = none)
          (recordOutcome outcome now) with
        journal := s.journal ++ [.outcomeRecorded node.key node.generation task.id outcome] } =
        s.outcomes ++ [(node.key, node.generation, task.id, outcome)] := by
      simp [outcomes, JournalEntry.outcome?]
    rw [houts] at ho
    rcases List.mem_append.mp ho with ho | ho
    · exact .inl ho
    · cases List.mem_singleton.mp ho
      exact .inr ⟨task, he, rfl, hout⟩
  | rewound he hs =>
    refine .inl ?_
    simpa [outcomes, rewind] using ho

namespace Concluded

theorem steady (h : s.Concluded) (hc : Consistent s.nodes) (hs : Steady s s') : s'.Concluded := by
  intro k g t hcre n' hn' hk hg
  obtain ⟨n, hn, hnk, hng⟩ := hs.rows n' hn'
  rw [hs.outcomes]
  rcases hs.creations _ hcre with hcre | ⟨m, hm, hmk, hmg⟩
  · exact h k g t hcre n hn (hnk.symm.trans hk) (hng ▸ hg)
  · -- A task that is created belongs to the generation there is.
    obtain rfl := hc.eq_of_key hm hn (hmk.trans (hk.symm.trans hnk))
    rw [hng, hmg] at hg
    exact absurd hg (Nat.lt_irrefl _)

/-- A generation that a resume closes had a task that has reported, or none. -/
private theorem rewound (h : s.Concluded) (hv : s.Valid) (hj : s.Journaled)
    (hs : s.graph.status = .succeeded ∨ s.graph.status = .failed) (rerun : List String) (now : Time) :
    (s.recordSettlement.rewind rerun now).Concluded := by
  have hcre : (s.recordSettlement.rewind rerun now).creations = s.creations := by
    simp [creations, rewind]
  have hout : (s.recordSettlement.rewind rerun now).outcomes = s.outcomes := by
    simp [outcomes, rewind]
  have hnodes : (s.recordSettlement.rewind rerun now).nodes =
      Rows.updateWhere (fun n => n.key ∈ rerun) resetNode s.nodes := by
    rw [rewind, recordSettlement_nodes]
  intro k g t hm n' hn' hk hg
  rw [hcre] at hm
  rw [hout]
  rw [hnodes] at hn'
  obtain ⟨n, hn, rfl⟩ := Rows.mem_updateWhere.mp hn'
  have hkey : n.key = k := by
    split at hk
    · exact hk
    · exact hk
  by_cases hlt : g < n.generation
  · exact h k g t hm n hn hkey hlt
  obtain ⟨m, hmem, hmk, hgen⟩ := hj.created k g t hm
  obtain rfl := hv.nodes.eq_of_key hmem hn (hmk.trans hkey.symm)
  rcases hgen with hgen | ⟨rfl, htask⟩
  · exact absurd hgen hlt
  -- A settled graph has no node that runs, so the bound task has decided its node.
  have hbound : m.task ≠ none := by
    rw [htask]
    exact Option.some_ne_none _
  have hdone : m.status = .succeeded ∨ m.status = .failed := by
    rcases (hv.nodes.rows m hn).bound.mp hbound with hrun | hdone
    · have hnot : s.graph.status ≠ .running ∧ s.graph.status ≠ .cancelled := by
        rcases hs with hs | hs
        · simp [hs]
        · simp [hs]
      exact absurd hrun (hv.no_running hnot.1 hnot.2 m hn)
    · exact hdone
  obtain ⟨t', ht', ho⟩ := hj.decided m hn hdone
  rw [htask] at ht'
  obtain rfl := Option.some.inj ht'
  exact ⟨m.status, hkey ▸ ho⟩

theorem call (h : s.Concluded) (hv : s.Valid) (hj : s.Journaled) {r : GraphState × Option QraftGraph}
    (hcall : s.call conf now e = .ok r) : r.1.Concluded := by
  obtain ⟨s₀, hb, hc, hsteady⟩ := call_begins hv hcall
  refine steady ?_ hc hsteady
  cases hb with
  | same => exact h
  | @recorded node task outcome he hn ht hout =>
    intro k g t hcre n' hn' hk hg
    have hcre : (k, g, t) ∈ s.creations := by
      simpa [creations, JournalEntry.creation?] using hcre
    obtain ⟨n, hm, hnk, hng⟩ := (steady_write (s := s) (f := recordOutcome outcome now)
      fun _ => ⟨rfl, rfl⟩).rows n' hn'
    obtain ⟨o, ho⟩ := h k g t hcre n hm (hnk.symm.trans hk) (hng ▸ hg)
    refine ⟨o, ?_⟩
    simp only [outcomes, List.filterMap_append, List.mem_append]
    exact .inl ho
  | rewound he hs => exact h.rewound hv hj hs _ now

end Concluded

theorem start_concluded {plan : GraphPlan} {id : GraphId} (h : start conf plan id now = .ok s) :
    s.Concluded := by
  obtain ⟨s₀, t, hcheck, hins, ht, rfl⟩ := start_ok h
  have hc := hins.consistent hcheck
  have hinit : s₀.Concluded := by
    intro k g t hcre
    simp [creations, hins.journal] at hcre
  exact hinit.steady hc ((steady_frontier hc ht).trans (steady_maybeSettle t now))

end
end GraphState
end Qraft
