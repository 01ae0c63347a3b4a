import Qraft.Graphs.System

/-! The settlement rows of one graph against its history of settlements. -/
namespace Qraft

def JournalEntry.settlement? :
    JournalEntry → Option (Nat × GraphStatus × List (String × NodeStatus))
  | .graphSettled generation outcome nodes => some (generation, outcome, nodes)
  | _ => none

/-- What a settlement row says of the settlement it stands for. -/
def QraftGraphSettlement.summary (r : QraftGraphSettlement) :
    Nat × GraphStatus × List (String × NodeStatus) :=
  (r.generation, r.context.outcome, r.context.nodes)

namespace GraphState
open NodeTable

def settled (s : GraphState) : List (Nat × GraphStatus × List (String × NodeStatus)) :=
  s.journal.filterMap JournalEntry.settlement?

/-- Every generation settled at most once, and with a hook to call each settlement has
one row, whose context is that settlement's own. -/
structure Ledger (s : GraphState) : Prop where
  settledAt : s.graph.settledAt = none ↔ ¬ s.graph.status.Terminal
  past : ∀ c ∈ s.settled, c.1 ≤ s.graph.generation
  current : ∀ c ∈ s.settled, c.1 = s.graph.generation → s.graph.status.Terminal
  recorded : s.graph.status.Terminal → ∃ c ∈ s.settled, c.1 = s.graph.generation
  once : (s.settled.map fun c => c.1).Nodup
  rows : hookPath s.graph ≠ none → s.settlements.map (·.summary) = s.settled
  noRows : hookPath s.graph = none → s.settlements = []
  context : ∀ r ∈ s.settlements, r.graphId = s.graph.id ∧ r.context.graphId = s.graph.id ∧
    r.context.generation = r.generation ∧ r.dateCreated ≠ none

/-- A change that keeps the ledger, the identity of the graph and the rows it has. -/
structure Keeps (s s' : GraphState) : Prop where
  ledger : s.Ledger → s'.Ledger
  id : s'.graph.id = s.graph.id
  settlements : ∀ r ∈ s.settlements, r ∈ s'.settlements

theorem Keeps.refl (s : GraphState) : Keeps s s := ⟨fun h => h, rfl, fun _ h => h⟩

theorem Keeps.trans {s t u : GraphState} (h : Keeps s t) (h' : Keeps t u) : Keeps s u :=
  ⟨fun hs => h'.ledger (h.ledger hs), h'.id.trans h.id,
    fun r hr => h'.settlements r (h.settlements r hr)⟩

/-- The ledger reads the graph row, the settlement rows and the settlements of the journal. -/
theorem keeps_of_eq {s s' : GraphState} (hg : s'.graph = s.graph)
    (hs : s'.settlements = s.settlements) (hl : s'.settled = s.settled) : Keeps s s' := by
  refine ⟨fun h => ?_, by rw [hg], fun r hr => hs ▸ hr⟩
  constructor
  · rw [hg]
    exact h.settledAt
  · rw [hg, hl]
    exact h.past
  · rw [hg, hl]
    exact h.current
  · rw [hg, hl]
    exact h.recorded
  · rw [hl]
    exact h.once
  · rw [hg, hs, hl]
    exact h.rows
  · rw [hg, hs]
    exact h.noRows
  · rw [hg, hs]
    exact h.context

theorem keeps_updateNodes (s : GraphState) (p : QraftGraphNode → Bool)
    (f : QraftGraphNode → QraftGraphNode) : Keeps s (s.updateNodes p f) :=
  keeps_of_eq rfl rfl rfl

theorem keeps_afterDispatch (s : GraphState) (node : QraftGraphNode) (task : QraftTask)
    (now : Time) : Keeps s (s.afterDispatch node task now) := by
  refine keeps_of_eq rfl rfl ?_
  simp [settled, afterDispatch, JournalEntry.settlement?]

theorem keeps_frontier {conf : RetryDefaults} {now : Time} {s s' : GraphState}
    (h : dispatchFrontier conf now s = .ok s') : Keeps s s' := by
  unfold dispatchFrontier at h
  split at h
  · cases h
    exact .refl s
  · apply Transaction.foldlM_invariant (fun _ t => Keeps s t) _ (.refl s) h
    intro node _ t t' ht hturn
    rcases dispatchOrPark_cases hturn with rfl | ⟨task, _, rfl⟩
    · exact ht.trans (keeps_updateNodes t _ _)
    · exact ht.trans (keeps_afterDispatch t node task now)

/-- A settled generation has its row already. -/
theorem recordSettlement_of_terminal {s : GraphState} (h : s.Ledger)
    (ht : s.graph.status.Terminal) : s.recordSettlement = s := by
  unfold recordSettlement
  split
  · rfl
  · rename_i path hpath
    obtain ⟨c, hc, hg⟩ := h.recorded ht
    rw [← h.rows (by simp [hpath])] at hc
    obtain ⟨r, hr, rfl⟩ := List.mem_map.mp hc
    rw [if_pos]
    exact List.any_eq_true.mpr ⟨r, hr, by simpa [QraftGraphSettlement.summary] using hg⟩

theorem settle_keeps (s : GraphState) {status : GraphStatus} (hst : status.Terminal) (now : Time) :
    Keeps s (s.settle status now).1 := by
  rcases settle_cases s status now with ⟨_, he⟩ | ⟨g, hl, rfl, he⟩
  · rw [he]
    exact .refl s
  rw [he]
  have hnew : s.Ledger → ∀ c ∈ s.settled, c.1 ≠ s.graph.generation := by
    intro h c hc hg
    exact h.settledAt.mp hl.1 (h.current c hc hg)
  generalize hs' : ({ recordSettlement { s with
      graph := { s.graph with status, settledAt := some now, dateUpdated := now } } with
    journal := s.journal ++ [.graphSettled s.graph.generation status s.nodes.statuses] } :
      GraphState) = s'
  have hgraph : s'.graph = { s.graph with status, settledAt := some now, dateUpdated := now } := by
    rw [← hs']
    exact recordSettlement_graph _
  have hlog : s'.settled = s.settled ++ [(s.graph.generation, status, s.nodes.statuses)] := by
    rw [← hs']
    simp [settled, JournalEntry.settlement?]
  have hgen : s'.graph.generation = s.graph.generation := by rw [hgraph]
  have hpath : hookPath s'.graph = hookPath s.graph := by
    rw [hgraph]
    rfl
  have hrows : s'.settlements = s.settlements ∨ ∃ r, s'.settlements = s.settlements ++ [r] ∧
      hookPath s.graph ≠ none ∧ r.summary = (s.graph.generation, status, s.nodes.statuses) ∧
      r.graphId = s.graph.id ∧ r.context.graphId = s.graph.id ∧
      r.context.generation = r.generation ∧ r.dateCreated ≠ none := by
    rw [← hs']
    unfold recordSettlement
    split
    · exact .inl rfl
    · rename_i path hp
      split
      · exact .inl rfl
      · refine .inr ⟨_, rfl, ?_, rfl, rfl, rfl, rfl, by simp⟩
        intro hnone
        have hcontra : hookPath s.graph = some path := hp
        rw [hnone] at hcontra
        cases hcontra
  refine ⟨fun h => ?_, by rw [hgraph], ?_⟩
  · have happend : hookPath s.graph ≠ none → ∃ r, s'.settlements = s.settlements ++ [r] ∧
        r.summary = (s.graph.generation, status, s.nodes.statuses) := by
      intro hp
      obtain ⟨path, hsome⟩ := Option.ne_none_iff_exists'.mp hp
      have hfresh : ¬ (s.settlements.any fun r => r.generation = s.graph.generation) = true := by
        rw [List.any_eq_true]
        rintro ⟨r, hr, hrg⟩
        have hc : r.summary ∈ s.settled := h.rows hp ▸ List.mem_map_of_mem hr
        exact hnew h _ hc (by simpa [QraftGraphSettlement.summary] using hrg)
      have hsome' : hookPath ({ s.graph with status, settledAt := some now, dateUpdated := now } :
          QraftGraph) = some path := hsome
      rw [← hs']
      unfold recordSettlement
      simp only [hsome']
      rw [if_neg hfresh]
      exact ⟨_, rfl, rfl⟩
    constructor
    · simp [hgraph, hst]
    · intro c hc
      rw [hgen]
      rw [hlog, List.mem_append, List.mem_singleton] at hc
      rcases hc with hc | rfl
      · exact h.past c hc
      · exact le_rfl
    · intro _ _ _
      rw [hgraph]
      exact hst
    · intro _
      rw [hlog, hgen]
      exact ⟨_, List.mem_append_right _ (List.mem_singleton.mpr rfl), rfl⟩
    · rw [hlog, List.map_append, List.nodup_append]
      refine ⟨h.once, by simp, ?_⟩
      rintro g hm _ hx rfl
      obtain ⟨c, hc, rfl⟩ := List.mem_map.mp hm
      simp only [List.map_cons, List.map_nil, List.mem_singleton] at hx
      exact hnew h c hc hx
    · intro hp
      rw [hpath] at hp
      obtain ⟨r, hr, hsum⟩ := happend hp
      rw [hr, hlog, List.map_append, h.rows hp, List.map_cons, List.map_nil, hsum]
    · intro hp
      rw [hpath] at hp
      rcases hrows with hr | ⟨r, _, hne, _⟩
      · rw [hr]
        exact h.noRows hp
      · exact absurd hp hne
    · intro r hr
      have hid : s'.graph.id = s.graph.id := by rw [hgraph]
      rw [hid]
      rcases hrows with he | ⟨r', he, _, _, hctx⟩
      · exact h.context r (he ▸ hr)
      · rw [he, List.mem_append, List.mem_singleton] at hr
        rcases hr with hr | rfl
        · exact h.context r hr
        · exact hctx
  · intro r hr
    rcases hrows with he | ⟨r', he, _⟩
    · rw [he]
      exact hr
    · rw [he]
      exact List.mem_append_left _ hr

/-- Writing a live status over a live status, with `settled_at` and the rest left alone. -/
theorem keeps_of_live {s s' : GraphState} (hl : ¬ s.graph.status.Terminal)
    (hl' : ¬ s'.graph.status.Terminal) (hg : s'.graph.settledAt = s.graph.settledAt ∧
      s'.graph.generation = s.graph.generation ∧ s'.graph.onSettled = s.graph.onSettled ∧
      s'.graph.id = s.graph.id) (hs : s'.settlements = s.settlements) (hj : s'.settled = s.settled) :
    Keeps s s' := by
  obtain ⟨hat, hgen, hon, hid⟩ := hg
  have hpath : hookPath s'.graph = hookPath s.graph := by rw [hookPath, hookPath, hon]
  refine ⟨fun h => ?_, hid, fun r hr => hs ▸ hr⟩
  constructor
  · rw [hat, h.settledAt]
    exact ⟨fun _ => hl', fun _ => hl⟩
  · rw [hgen, hj]
    exact h.past
  · rw [hgen, hj]
    exact fun c hc hcg => absurd (h.current c hc hcg) hl
  · exact fun ht => absurd ht hl'
  · rw [hj]
    exact h.once
  · rw [hpath, hs, hj]
    exact h.rows
  · rw [hpath, hs]
    exact h.noRows
  · rw [hid, hs]
    exact h.context

theorem maybeSettle_keeps (s : GraphState) (now : Time) : Keeps s (s.maybeSettle now).1 := by
  rcases maybeSettle_cases s now with
    ⟨_, h⟩ | ⟨status, hq, h⟩ | ⟨_, hr, h⟩ | ⟨_, _, h⟩ | ⟨_, h⟩
  · rw [h]
    exact .refl s
  · rw [h]
    exact settle_keeps s (terminal_of_settle hq) now
  · rw [h]
    refine keeps_of_live ?_ ?_ ⟨rfl, rfl, rfl, rfl⟩ rfl rfl
    · simp [hr, GraphStatus.Terminal]
    · simp [parkGraph, GraphStatus.Terminal]
  · rw [h]
    exact .refl s
  · rw [h]
    refine keeps_of_eq rfl rfl ?_
    simp [settled, JournalEntry.settlement?]

/-- A resume finds the settlement of the generation it ends already recorded. -/
theorem rewind_keeps {s : GraphState} (ht : s.graph.status.Terminal) (rerun : List String)
    (now : Time) : Keeps s (s.recordSettlement.rewind rerun now) := by
  have hrows : ∀ r ∈ s.settlements, r ∈ s.recordSettlement.settlements := by
    intro r hr
    unfold recordSettlement
    split
    · exact hr
    · split
      · exact hr
      · exact List.mem_append_left _ hr
  refine ⟨fun h => ?_, by simp [rewind], hrows⟩
  rw [recordSettlement_of_terminal h ht]
  constructor
  · simp [rewind, GraphStatus.Terminal]
  · exact fun c hc => Nat.le_succ_of_le (h.past c hc)
  · exact fun c hc hcg => absurd (h.past c hc) (by simp [hcg, rewind])
  · simp [rewind, GraphStatus.Terminal]
  · exact h.once
  · exact h.rows
  · exact h.noRows
  · exact h.context

theorem wake_keeps {s s' : GraphState} (hlive : ¬ s.graph.status.Terminal) (date : Time)
    (hg : s'.graph = { wake s.graph with dateUpdated := date } ∨ s'.graph = wake s.graph)
    (hs : s'.settlements = s.settlements) (hj : s'.settled = s.settled) : Keeps s s' := by
  have hwake : ¬ (wake s.graph).status.Terminal := by
    rw [wake_status hlive]
    simp [GraphStatus.Terminal]
  rcases hg with hg | hg
  · refine keeps_of_live hlive ?_ ?_ hs hj
    · rw [hg]
      exact hwake
    · rw [hg]
      exact ⟨rfl, rfl, rfl, rfl⟩
  · refine keeps_of_live hlive ?_ ?_ hs hj
    · rw [hg]
      exact hwake
    · rw [hg]
      exact ⟨rfl, rfl, rfl, rfl⟩

/-- Every call on the graph keeps the ledger. -/
theorem call_keeps {conf : RetryDefaults} {now : Time} {s : GraphState} {e : GraphEvent}
    {r : GraphState × Option QraftGraph} (h : s.call conf now e = .ok r) : Keeps s r.1 := by
  rcases call_cases h with ⟨task, _, h⟩ | ⟨key, reason, _, h⟩ | ⟨_, h⟩ | ⟨key, _, _, h⟩ |
    ⟨key, reason, _, h⟩ | ⟨nodes, n, _, _, h⟩
  · rcases handleNodeCompletion_cases h with
      rfl | ⟨node, outcome, recorded, _, _, _, _, _, rfl, hrest⟩
    · exact .refl s
    · have hrec : Keeps s { s.updateNodes (fun n => n.key = node.key && n.settledAt = none)
            (recordOutcome outcome now) with
          journal := s.journal ++ [.outcomeRecorded node.key node.generation task.id outcome] } := by
        refine keeps_of_eq rfl rfl ?_
        simp [settled, JournalEntry.settlement?]
      rcases hrest with ⟨_, t, ht, rfl⟩ | ⟨_, rfl⟩
      · exact (hrec.trans (keeps_frontier ht)).trans (maybeSettle_keeps t now)
      · exact hrec
  · obtain ⟨t, _, ht, rfl⟩ := skip_ok h
    exact ((keeps_updateNodes s _ _).trans (keeps_frontier ht)).trans (maybeSettle_keeps t now)
  · obtain ⟨_, rfl⟩ := cancel_ok h
    exact settle_keeps s (.inr (.inr rfl)) now
  · obtain ⟨node, task, hlive, _, _, _, _, date, ht⟩ := approve_ok h
    rw [ht]
    refine wake_keeps hlive date (.inl rfl) rfl ?_
    simp [settled, afterDispatch, updateNodes, JournalEntry.settlement?]
  · obtain ⟨node, hlive, _, _, _, rfl⟩ := reject_ok h
    have hwake : Keeps s { s.updateNodes (fun n => n.key = key) (rejectNode reason now) with
        graph := wake s.graph } := wake_keeps hlive now (.inr rfl) rfl rfl
    exact hwake.trans (maybeSettle_keeps _ now)
  · obtain ⟨rerun, t, hst, _, _, ht, hr⟩ := resume_ok h
    have hfst : r.1 = (t.maybeSettle now).1 := (Prod.mk.inj hr).1
    rw [hfst]
    have hterm : s.graph.status.Terminal := hst.elim .inl (fun hf => .inr (.inl hf))
    exact ((rewind_keeps hterm rerun now).trans (keeps_frontier ht)).trans (maybeSettle_keeps t now)

theorem start_ledger {conf : RetryDefaults} {plan : GraphPlan} {id : GraphId} {now : Time}
    {s : GraphState} (h : start conf plan id now = .ok s) : s.Ledger ∧ s.graph.id = id := by
  obtain ⟨s₀, t, _, hins, ht, rfl⟩ := start_ok h
  have hlog : s₀.settled = [] := by simp [settled, hins.journal]
  have hkeeps := (keeps_frontier ht).trans (maybeSettle_keeps t now)
  refine ⟨hkeeps.ledger ?_, hkeeps.id.trans hins.id⟩
  constructor
  · simp [hins.settledAt, hins.status, GraphStatus.Terminal]
  · simp [hlog]
  · simp [hlog]
  · simp [hins.status, GraphStatus.Terminal]
  · simp [hlog]
  · simp [hlog, hins.settlements]
  · exact fun _ => hins.settlements
  · simp [hins.settlements]

end GraphState
end Qraft
