import Qraft.Graphs.System

/-! The generation fence: which tasks were created for a node, and which outcomes were
written from them, over a whole run. -/
namespace Qraft

/-- The node, generation and task of a dispatch. -/
def JournalEntry.creation? : JournalEntry → Option (String × Nat × TaskId)
  | .taskCreated key generation task => some (key, generation, task)
  | _ => none

/-- The node, generation, task and outcome of a recorded completion. -/
def JournalEntry.outcome? : JournalEntry → Option (String × Nat × TaskId × NodeStatus)
  | .outcomeRecorded key generation task outcome => some (key, generation, task, outcome)
  | _ => none

namespace GraphState
open NodeTable

def creations (s : GraphState) : List (String × Nat × TaskId) :=
  s.journal.filterMap JournalEntry.creation?

def outcomes (s : GraphState) : List (String × Nat × TaskId × NodeStatus) :=
  s.journal.filterMap JournalEntry.outcome?

/-- What one write does to a node row: the generation stays, with its task, or a new one
begins without a task. -/
structure Kept (n n' : QraftGraphNode) : Prop where
  key : n'.key = n.key
  generation : n.generation ≤ n'.generation
  same : n'.generation = n.generation → n'.task = n.task ∧ (n.settledAt ≠ none → n'.settledAt ≠ none)
  renewed : n'.generation ≠ n.generation → n'.task = none
  decided : n'.status = .succeeded ∨ n'.status = .failed →
    n'.generation = n.generation ∧ n'.status = n.status

/-- Creations and outcomes agree with the rows: every task was created for one node in
one generation, no two for the same one, and every outcome was written once in its
generation, from the task created there. -/
structure Journaled (s : GraphState) : Prop where
  created : ∀ k g t, (k, g, t) ∈ s.creations →
    ∃ n ∈ s.nodes, n.key = k ∧ (g < n.generation ∨ g = n.generation ∧ n.task = some t)
  bound : ∀ n ∈ s.nodes, ∀ t, n.task = some t → (n.key, n.generation, t) ∈ s.creations
  createdOnce : (s.creations.map fun c => (c.1, c.2.1)).Nodup
  tasks : s.store.tasks.map (fun t => (t.graphNode, t.id)) =
    s.creations.map fun c => (some c.1, c.2.2)
  taskOnce : (s.creations.map fun c => c.2.2).Nodup
  ids : ∀ c ∈ s.creations, c.2.2 < s.store.nextId
  recorded : ∀ k g t o, (k, g, t, o) ∈ s.outcomes → (k, g, t) ∈ s.creations ∧
    ∃ n ∈ s.nodes, n.key = k ∧ (g < n.generation ∨ g = n.generation ∧ n.settledAt ≠ none)
  recordedOnce : (s.outcomes.map fun c => (c.1, c.2.1)).Nodup
  decided : ∀ n ∈ s.nodes, n.status = .succeeded ∨ n.status = .failed →
    ∃ t, n.task = some t ∧ (n.key, n.generation, t, n.status) ∈ s.outcomes

theorem Kept.refl (n : QraftGraphNode) : Kept n n :=
  ⟨rfl, le_rfl, fun _ => ⟨rfl, id⟩, fun h => absurd rfl h, fun _ => ⟨rfl, rfl⟩⟩

/-- A run's record survives any write that keeps every row it touches. -/
theorem Journaled.write {s : GraphState} (h : s.Journaled) {p : QraftGraphNode → Bool}
    {f : QraftGraphNode → QraftGraphNode} (hk : ∀ n ∈ s.nodes, p n = true → Kept n (f n)) :
    (s.updateNodes p f).Journaled := by
  have hrow : ∀ n ∈ s.nodes, Kept n (if p n then f n else n) := by
    intro n hn
    split
    · rename_i hp
      exact hk n hn hp
    · exact .refl n
  refine ⟨?_, ?_, h.createdOnce, h.tasks, h.taskOnce, h.ids, ?_, h.recordedOnce, ?_⟩
  · intro k g t hc
    obtain ⟨n, hn, hnk, hg⟩ := h.created k g t hc
    have hkept := hrow n hn
    refine ⟨_, Rows.mem_updateWhere_of_mem hn, hkept.key.trans hnk, ?_⟩
    rcases hg with hg | ⟨rfl, ht⟩
    · exact .inl (lt_of_lt_of_le hg hkept.generation)
    · rcases hkept.generation.lt_or_eq with hlt | heq
      · exact .inl hlt
      · exact .inr ⟨heq, (hkept.same heq.symm).1.trans ht⟩
  · intro n' hn' t ht
    obtain ⟨n, hn, rfl⟩ := Rows.mem_updateWhere.mp hn'
    have hkept := hrow n hn
    have hgen : (if p n then f n else n).generation = n.generation := by
      by_contra hne
      rw [hkept.renewed hne] at ht
      cases ht
    rw [hkept.key, hgen]
    exact h.bound n hn t ((hkept.same hgen).1.symm.trans ht)
  · intro k g t o ho
    obtain ⟨hc, n, hn, hnk, hg⟩ := h.recorded k g t o ho
    have hkept := hrow n hn
    refine ⟨hc, _, Rows.mem_updateWhere_of_mem hn, hkept.key.trans hnk, ?_⟩
    rcases hg with hg | ⟨rfl, hs⟩
    · exact .inl (lt_of_lt_of_le hg hkept.generation)
    · rcases hkept.generation.lt_or_eq with hlt | heq
      · exact .inl hlt
      · exact .inr ⟨heq, (hkept.same heq.symm).2 hs⟩
  · intro n' hn' hs
    obtain ⟨n, hn, rfl⟩ := Rows.mem_updateWhere.mp hn'
    have hkept := hrow n hn
    obtain ⟨hgen, hst⟩ := hkept.decided hs
    rw [hst] at hs
    obtain ⟨t, ht, ho⟩ := h.decided n hn hs
    refine ⟨t, (hkept.same hgen).1.trans ht, ?_⟩
    rw [hkept.key, hgen, hst]
    exact ho

/-- Only nodes, tasks and the journal's creations and outcomes matter to the record. -/
theorem Journaled.congr {s s' : GraphState} (h : s.Journaled) (hn : s'.nodes = s.nodes)
    (ht : s'.store = s.store) (hc : s'.creations = s.creations) (ho : s'.outcomes = s.outcomes) :
    s'.Journaled := by
  constructor
  · rw [hc, hn]
    exact h.created
  · rw [hc, hn]
    exact h.bound
  · rw [hc]
    exact h.createdOnce
  · rw [ht, hc]
    exact h.tasks
  · rw [hc]
    exact h.taskOnce
  · rw [hc, ht]
    exact h.ids
  · rw [ho, hc, hn]
    exact h.recorded
  · rw [ho]
    exact h.recordedOnce
  · rw [ho, hn]
    exact h.decided

/-- Dispatching a pending node creates the first task of its generation. -/
theorem Journaled.dispatch {s : GraphState} (h : s.Journaled) (hc : Consistent s.nodes)
    {node : QraftGraphNode} (hn : node ∈ s.nodes) (hp : node.status = .pending) {task : QraftTask}
    (ht : DispatchedTask s node task) (now : Time) : (s.afterDispatch node task now).Journaled := by
  have hcre : (s.afterDispatch node task now).creations =
      s.creations ++ [(node.key, node.generation, s.store.nextId)] := by
    simp [creations, afterDispatch, JournalEntry.creation?]
  have hout : (s.afterDispatch node task now).outcomes = s.outcomes := by
    simp [outcomes, afterDispatch, JournalEntry.outcome?]
  have hunbound : node.task = none := by
    have hb := (hc.rows node hn).bound
    simpa [hp] using hb
  have hsel : ∀ n ∈ s.nodes, (n.key = node.key && n.status = .pending) = true ↔ n = node := by
    intro n hm
    simp only [Bool.and_eq_true, decide_eq_true_eq]
    refine ⟨fun hk => hc.eq_of_key hm hn hk.1, ?_⟩
    rintro rfl
    exact ⟨rfl, hp⟩
  have hrows : ∀ {n'}, n' ∈ (s.afterDispatch node task now).nodes ↔
      (n' ∈ s.nodes ∧ n' ≠ node) ∨ n' = bindTask s.store.nextId now node :=
    Rows.mem_updateWhere_single hn hsel
  have hbound := hrows.mpr (.inr rfl)
  have hnew : ∀ g t, (node.key, g, t) ∈ s.creations → g < node.generation := by
    intro g t hmem
    obtain ⟨n, hm, hk, hg⟩ := h.created _ _ _ hmem
    rw [hc.eq_of_key hm hn hk, hunbound] at hg
    simpa using hg
  constructor
  · intro k g t hm
    rw [hcre, List.mem_append, List.mem_singleton] at hm
    rcases hm with hm | hm
    · obtain ⟨n, hm', hk, hg⟩ := h.created k g t hm
      by_cases he : n = node
      · subst he
        exact ⟨_, hbound, hk, .inl (hnew g t (hk ▸ hm))⟩
      · exact ⟨n, hrows.mpr (.inl ⟨hm', he⟩), hk, hg⟩
    · cases hm
      exact ⟨_, hbound, rfl, .inr ⟨rfl, rfl⟩⟩
  · intro n' hn' t hnt
    rw [hcre, List.mem_append]
    rcases hrows.mp hn' with ⟨hm, _⟩ | rfl
    · exact .inl (h.bound n' hm t hnt)
    · cases hnt
      exact .inr (List.mem_singleton.mpr rfl)
  · rw [hcre, List.map_append, List.nodup_append]
    refine ⟨h.createdOnce, by simp, ?_⟩
    rintro c hm _ hx rfl
    simp only [List.map_cons, List.map_nil, List.mem_singleton] at hx
    subst hx
    obtain ⟨⟨k, g, t⟩, hm, he⟩ := List.mem_map.mp hm
    simp only [Prod.mk.injEq] at he
    obtain ⟨rfl, rfl⟩ := he
    exact lt_irrefl _ (hnew _ _ hm)
  · rw [hcre]
    simp [afterDispatch, h.tasks, ht.graphNode, ht.id]
  · rw [hcre, List.map_append, List.nodup_append]
    refine ⟨h.taskOnce, by simp, ?_⟩
    rintro c hm _ hx rfl
    simp only [List.map_cons, List.map_nil, List.mem_singleton] at hx
    subst hx
    obtain ⟨c, hm, he⟩ := List.mem_map.mp hm
    exact absurd he (ne_of_lt (h.ids c hm))
  · intro c hm
    rw [hcre, List.mem_append, List.mem_singleton] at hm
    simp only [afterDispatch]
    rcases hm with hm | rfl
    · exact lt_of_lt_of_le (h.ids c hm) (Nat.le_add_right _ 2)
    · simp
  · intro k g t o hm
    rw [hout] at hm
    obtain ⟨hcm, n, hm', hk, hg⟩ := h.recorded k g t o hm
    rw [hcre, List.mem_append]
    refine ⟨.inl hcm, ?_⟩
    by_cases he : n = node
    · subst he
      exact ⟨_, hbound, hk, .inl (hnew g t (hk ▸ hcm))⟩
    · exact ⟨n, hrows.mpr (.inl ⟨hm', he⟩), hk, hg⟩
  · rw [hout]
    exact h.recordedOnce
  · intro n' hn' hs
    rw [hout]
    rcases hrows.mp hn' with ⟨hm, _⟩ | rfl
    · exact h.decided n' hm hs
    · simp [bindTask] at hs

/-- The first completion of a bound task writes the outcome of its generation. -/
theorem Journaled.record {s : GraphState} (h : s.Journaled) (hc : Consistent s.nodes)
    {node : QraftGraphNode} (hn : node ∈ s.nodes) {task : TaskId} (ht : node.task = some task)
    (ho : node.settledAt = none) (outcome : NodeStatus) (now : Time) :
    Journaled { s.updateNodes (fun n => n.key = node.key && n.settledAt = none)
        (recordOutcome outcome now) with
      journal := s.journal ++ [.outcomeRecorded node.key node.generation task outcome] } := by
  have hsel : ∀ n ∈ s.nodes, (n.key = node.key && n.settledAt = none) = true ↔ n = node := by
    intro n hm
    simp only [Bool.and_eq_true, decide_eq_true_eq]
    refine ⟨fun hk => hc.eq_of_key hm hn hk.1, ?_⟩
    rintro rfl
    exact ⟨rfl, ho⟩
  generalize hs' : ({ s.updateNodes (fun n => n.key = node.key && n.settledAt = none)
        (recordOutcome outcome now) with
      journal := s.journal ++ [.outcomeRecorded node.key node.generation task outcome] } :
      GraphState) = s'
  have hcre : s'.creations = s.creations := by
    rw [← hs']
    simp [creations, JournalEntry.creation?]
  have hout : s'.outcomes = s.outcomes ++ [(node.key, node.generation, task, outcome)] := by
    rw [← hs']
    simp [outcomes, JournalEntry.outcome?]
  have hstore : s'.store = s.store := by
    rw [← hs']
    rfl
  have hrows : ∀ {n'}, n' ∈ s'.nodes ↔
      (n' ∈ s.nodes ∧ n' ≠ node) ∨ n' = recordOutcome outcome now node := by
    intro n'
    rw [← hs']
    exact Rows.mem_updateWhere_single hn hsel
  have hnode := hrows.mpr (.inr rfl)
  constructor
  · intro k g t hm
    rw [hcre] at hm
    obtain ⟨n, hm', hk, hg⟩ := h.created k g t hm
    by_cases he : n = node
    · subst he
      exact ⟨_, hnode, hk, hg⟩
    · exact ⟨n, hrows.mpr (.inl ⟨hm', he⟩), hk, hg⟩
  · intro n' hn' t hnt
    rw [hcre]
    rcases hrows.mp hn' with ⟨hm, _⟩ | rfl
    · exact h.bound n' hm t hnt
    · exact h.bound node hn t hnt
  · rw [hcre]
    exact h.createdOnce
  · rw [hcre, hstore]
    exact h.tasks
  · rw [hcre]
    exact h.taskOnce
  · rw [hcre, hstore]
    exact h.ids
  · intro k g t o hm
    rw [hout, List.mem_append, List.mem_singleton] at hm
    rw [hcre]
    rcases hm with hm | hm
    · obtain ⟨hcm, n, hm', hk, hg⟩ := h.recorded k g t o hm
      refine ⟨hcm, ?_⟩
      by_cases he : n = node
      · subst he
        refine ⟨_, hnode, hk, hg.imp id fun hg => ⟨hg.1, by simp [recordOutcome]⟩⟩
      · exact ⟨n, hrows.mpr (.inl ⟨hm', he⟩), hk, hg⟩
    · cases hm
      exact ⟨h.bound node hn _ ht, _, hnode, rfl, .inr ⟨rfl, by simp [recordOutcome]⟩⟩
  · rw [hout, List.map_append, List.nodup_append]
    refine ⟨h.recordedOnce, by simp, ?_⟩
    rintro c hm _ hx rfl
    simp only [List.map_cons, List.map_nil, List.mem_singleton] at hx
    subst hx
    obtain ⟨⟨k, g, t, o⟩, hm, he⟩ := List.mem_map.mp hm
    simp only [Prod.mk.injEq] at he
    obtain ⟨rfl, rfl⟩ := he
    obtain ⟨_, n, hm', hk, hg⟩ := h.recorded _ _ _ _ hm
    rw [hc.eq_of_key hm' hn hk] at hg
    simp [ho] at hg
  · intro n' hn' hs
    rw [hout]
    rcases hrows.mp hn' with ⟨hm, _⟩ | rfl
    · obtain ⟨t, hnt, hmem⟩ := h.decided n' hm hs
      exact ⟨t, hnt, List.mem_append_left _ hmem⟩
    · exact ⟨task, ht, List.mem_append_right _ (List.mem_singleton.mpr rfl)⟩

theorem Journaled.maybeSettle {s : GraphState} (h : s.Journaled) (now : Time) :
    (s.maybeSettle now).1.Journaled := by
  apply h.congr (maybeSettle_nodes s now) (maybeSettle_store s now)
  · exact maybeSettle_filterMap _ (fun _ _ _ => rfl) rfl s now
  · exact maybeSettle_filterMap _ (fun _ _ _ => rfl) rfl s now

theorem Journaled.frontier {conf : RetryDefaults} {now : Time} {s s' : GraphState}
    (h : s.Journaled) (hc : Consistent s.nodes) (hd : dispatchFrontier conf now s = .ok s') :
    s'.Journaled := by
  apply dispatchFrontier_invariant Journaled _ hc h hd
  intro t node t' hct hready hj hturn
  obtain ⟨hn, hp, _⟩ := mem_readyNodes.mp hready
  rcases dispatchOrPark_cases hturn with rfl | ⟨task, ht, rfl⟩
  · apply hj.write
    intro n _ _
    exact ⟨rfl, le_rfl, fun _ => ⟨rfl, id⟩, fun h => absurd rfl h, by simp [park]⟩
  · exact hj.dispatch hct hn hp ht now

theorem start_journaled {conf : RetryDefaults} {plan : GraphPlan} {id : GraphId} {now : Time}
    {s : GraphState} (h : start conf plan id now = .ok s) : s.Journaled := by
  obtain ⟨s₀, t, hcheck, hins, ht, rfl⟩ := start_ok h
  have hc := hins.consistent hcheck
  have hnone : ∀ n ∈ s₀.nodes, n.status = .pending ∧ n.task = none := by
    rw [hins.nodes]
    intro n hn
    obtain ⟨i, hi, rfl⟩ := List.mem_mapIdx.mp hn
    exact ⟨rfl, rfl⟩
  have hj : s₀.Journaled := by
    have hcre : s₀.creations = [] := by simp [creations, hins.journal]
    have hout : s₀.outcomes = [] := by simp [outcomes, hins.journal]
    refine ⟨by simp [hcre], ?_, by simp [hcre], by simp [hcre, hins.store], by simp [hcre],
      by simp [hcre], by simp [hout], by simp [hout], ?_⟩
    · intro n hn t hnt
      rw [(hnone n hn).2] at hnt
      cases hnt
    · intro n hn hs
      simp [(hnone n hn).1] at hs
  exact (hj.frontier hc ht).maybeSettle now

theorem completion_journaled {conf : RetryDefaults} {s : GraphState} {task : QraftTask}
    {now : Time} {r : GraphState × Option QraftGraph} (hv : s.Valid) (hj : s.Journaled)
    (h : s.handleNodeCompletion conf task now = .ok r) : r.1.Journaled := by
  rcases handleNodeCompletion_cases h with
    rfl | ⟨node, outcome, recorded, hn, _, hout, hbound, hopen, rfl, hrest⟩
  · exact hj
  · have hrec := hj.record hv.nodes hn hbound hopen outcome now
    rcases hrest with ⟨_, t, ht, rfl⟩ | ⟨_, rfl⟩
    · have hs := (hv.nodes.rows node hn).running_of_open (by simp [hbound]) hopen
      have hc := consistent_recordOutcome hv.nodes hn hs (taskOutcome_cases hout) now
      exact (hrec.frontier hc ht).maybeSettle now
    · exact hrec

theorem skip_journaled {conf : RetryDefaults} {s : GraphState} {key : String}
    {reason : Option String} {now : Time} {r : GraphState × Option QraftGraph} (hv : s.Valid)
    (hj : s.Journaled) (h : s.skip conf key reason now = .ok r) : r.1.Journaled := by
  obtain ⟨t, _, ht, rfl⟩ := skip_ok h
  have hskip : (s.updateNodes (fun n => n.key = key && n.status = .pending)
      (skipNode reason now)).Journaled := by
    apply hj.write
    intro n _ _
    exact ⟨rfl, le_rfl, fun _ => ⟨rfl, fun _ => by simp [skipNode]⟩, fun h => absurd rfl h,
      by simp [skipNode]⟩
  exact (hskip.frontier (consistent_skip hv.nodes key reason now) ht).maybeSettle now

theorem cancel_journaled {s : GraphState} {now : Time} {r : GraphState × Option QraftGraph}
    (hj : s.Journaled) (h : s.cancel now = .ok r) : r.1.Journaled := by
  obtain ⟨_, rfl⟩ := cancel_ok h
  apply hj.congr (settle_nodes s _ now) (settle_store s _ now)
  · exact settle_filterMap _ (fun _ _ _ => rfl) s _ now
  · exact settle_filterMap _ (fun _ _ _ => rfl) s _ now

theorem approve_journaled {conf : RetryDefaults} {s s' : GraphState} {key : String} {now : Time}
    (hv : s.Valid) (hj : s.Journaled) (h : s.approve conf key now = .ok s') : s'.Journaled := by
  obtain ⟨node, task, _, hn, rfl, hw, ht, date, rfl⟩ := approve_ok h
  have hrel : (s.updateNodes (fun n => n.key = node.key) release).Journaled := by
    apply hj.write
    intro n _ _
    exact ⟨rfl, le_rfl, fun _ => ⟨rfl, id⟩, fun h => absurd rfl h, by simp [release]⟩
  have hc := consistent_release hv.nodes hn hw
  have hmem : release node ∈ (s.updateNodes (fun n => n.key = node.key) release).nodes := by
    have hrow := Rows.mem_updateWhere_of_mem (f := release)
      (p := fun n : QraftGraphNode => n.key = node.key) hn
    simpa [updateNodes] using hrow
  exact (hrel.dispatch hc hmem rfl ht now).congr rfl rfl rfl rfl

theorem reject_journaled {s : GraphState} {key : String} {reason : Option String} {now : Time}
    {r : GraphState × Option QraftGraph} (hj : s.Journaled)
    (h : s.reject key reason now = .ok r) : r.1.Journaled := by
  obtain ⟨node, _, hn, rfl, hw, rfl⟩ := reject_ok h
  have hrej : (s.updateNodes (fun n => n.key = node.key) (rejectNode reason now)).Journaled := by
    apply hj.write
    intro n _ _
    exact ⟨rfl, le_rfl, fun _ => ⟨rfl, fun _ => by simp [rejectNode]⟩, fun h => absurd rfl h,
      by simp [rejectNode]⟩
  have hwake : Journaled { s.updateNodes (fun n => n.key = node.key) (rejectNode reason now) with
      graph := wake s.graph } := hrej.congr rfl rfl rfl rfl
  exact hwake.maybeSettle now

theorem resume_journaled {conf : RetryDefaults} {s : GraphState} {nodes : Option (List String)}
    {now : Time} {r : GraphState × Nat} (hv : s.Valid) (hj : s.Journaled)
    (h : s.resume conf nodes now = .ok r) : r.1.Journaled := by
  obtain ⟨rerun, t, _, hrerun, _, ht, rfl⟩ := resume_ok h
  have hreset : (s.updateNodes (fun n => n.key ∈ rerun) resetNode).Journaled := by
    apply hj.write
    intro n _ _
    exact ⟨rfl, by simp [resetNode], fun h => absurd h (by simp [resetNode]), fun _ => rfl,
      by simp [resetNode]⟩
  have hrew : (s.recordSettlement.rewind rerun now).Journaled := by
    apply hreset.congr
    · simp [rewind, updateNodes]
    · simp [rewind, updateNodes]
    · simp [rewind, updateNodes, creations]
    · simp [rewind, updateNodes, outcomes]
  exact (hrew.frontier (hv.consistent_rewind hrerun now) ht).maybeSettle now

theorem call_journaled {conf : RetryDefaults} {now : Time} {s : GraphState} {e : GraphEvent}
    {r : GraphState × Option QraftGraph} (hv : s.Valid) (hj : s.Journaled)
    (h : s.call conf now e = .ok r) : r.1.Journaled := by
  rcases call_cases h with ⟨task, _, h⟩ | ⟨key, reason, _, h⟩ | ⟨_, h⟩ | ⟨key, _, _, h⟩ |
    ⟨key, reason, _, h⟩ | ⟨nodes, n, _, _, h⟩
  · exact completion_journaled hv hj h
  · exact skip_journaled hv hj h
  · exact cancel_journaled hj h
  · exact approve_journaled hv hj h
  · exact reject_journaled hj h
  · exact resume_journaled hv hj h

theorem reach_journaled {conf : RetryDefaults} {s : GraphState} (h : (graphSystem conf).Reach s) :
    s.Journaled := by
  apply h.invariant_of Valid Journaled
  · exact fun s hs => reach_valid hs
  · rintro s ⟨plan, id, now, hs⟩
    exact start_journaled hs
  · intro s e s' hv hj _ hstep
    obtain ⟨g, hg⟩ := graphSystem_step hstep
    exact call_journaled hv hj hg

/-- The completion of a task of an older generation is dropped whole. -/
private theorem superseded_dropped {s : GraphState} (hv : s.Valid) (hj : s.Journaled)
    {n : QraftGraphNode} (hn : n ∈ s.nodes) {generation : Nat} {task : QraftTask}
    (hc : (n.key, generation, task.id) ∈ s.creations) (hg : generation < n.generation)
    (conf : RetryDefaults) (now : Time) :
    s.handleNodeCompletion conf task now = .ok (s, none) := by
  unfold handleNodeCompletion
  split
  · split
    · rfl
    · rename_i key outcome _ _ node hfound
      obtain ⟨hm, rfl⟩ := node?_eq_some hfound
      have hstale : node.task ≠ some task.id := by
        intro ht
        have hsame := List.inj_on_of_nodup_map hj.taskOnce hc (hj.bound node hm _ ht) rfl
        simp only [Prod.mk.injEq, and_true] at hsame
        have hnode := hv.nodes.eq_of_key hn hm hsame.1
        subst hnode
        exact absurd hsame.2 (ne_of_lt hg)
      rw [if_pos (.inl hstale)]
  · rfl

/-- Each generation of a node gets at most one task and at most one outcome, the outcome
from that task, and a completion from an older generation changes nothing. -/
theorem dispatch_exactly_once {conf : RetryDefaults} {s : GraphState}
    (h : (graphSystem conf).Reach s) :
    (s.store.tasks.map (fun t => (t.graphNode, t.id)) =
      s.creations.map fun c => (some c.1, c.2.2)) ∧
    (s.creations.map fun c => (c.1, c.2.1)).Nodup ∧
    (s.outcomes.map fun c => (c.1, c.2.1)).Nodup ∧
    (∀ key generation task outcome, (key, generation, task, outcome) ∈ s.outcomes →
      (key, generation, task) ∈ s.creations) ∧
    (∀ n ∈ s.nodes, n.status = .succeeded ∨ n.status = .failed →
      ∃ task, n.task = some task ∧ (n.key, n.generation, task, n.status) ∈ s.outcomes) ∧
    ∀ n ∈ s.nodes, ∀ generation task, (n.key, generation, task.id) ∈ s.creations →
      generation < n.generation → ∀ now, s.handleNodeCompletion conf task now = .ok (s, none) := by
  have hv := reach_valid h
  have hj := reach_journaled h
  refine ⟨hj.tasks, hj.createdOnce, hj.recordedOnce, ?_, hj.decided, ?_⟩
  · intro key generation task outcome ho
    exact (hj.recorded key generation task outcome ho).1
  · intro n hn generation task hc hg now
    exact superseded_dropped hv hj hn hc hg conf now

/-- The root failed, was resumed, and its first task reports again. -/
theorem dispatch_exactly_once_diamond : ∃ s, (graphSystem {}).Reach s ∧
    ∃ n ∈ s.nodes, n.key = "root" ∧ n.generation = 2 ∧ ("root", 1, 0) ∈ s.creations ∧
      s.call {} 9 (report 0 "root" .succeeded) = .ok (s, none) := by
  obtain ⟨s, hr, hs⟩ := exists_reach_of_replay {} diamond
    [(report 0 "root" .failed, 1), (.resume none, 2)]
    (fun s => (s.nodes.any fun n => n.key = "root" && n.generation = 2) &&
      decide (("root", 1, 0) ∈ s.creations)) (by decide)
  simp only [Bool.and_eq_true, List.any_eq_true, decide_eq_true_eq] at hs
  obtain ⟨⟨n, hn, hk, hg⟩, hc⟩ := hs
  refine ⟨s, hr, n, hn, hk, hg, hc, ?_⟩
  exact (dispatch_exactly_once hr).2.2.2.2.2 n hn 1
    { id := 0, status := .succeeded, func := "app", graphId := some 0, graphNode := some "root",
      dateUpdated := 0 } (hk ▸ hc) (by omega) 9

end GraphState
end Qraft
