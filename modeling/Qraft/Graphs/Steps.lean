import Qraft.Graphs.Frontier

/-! What each transaction of a graph did, given that it returned. -/
namespace Qraft.GraphState
open NodeTable

@[simp] theorem recordSettlement_graph (s : GraphState) : s.recordSettlement.graph = s.graph := by
  unfold recordSettlement
  split
  · rfl
  · split <;> rfl

@[simp] theorem recordSettlement_nodes (s : GraphState) : s.recordSettlement.nodes = s.nodes := by
  unfold recordSettlement
  split
  · rfl
  · split <;> rfl

@[simp] theorem recordSettlement_store (s : GraphState) : s.recordSettlement.store = s.store := by
  unfold recordSettlement
  split
  · rfl
  · split <;> rfl

@[simp] theorem recordSettlement_journal (s : GraphState) :
    s.recordSettlement.journal = s.journal := by
  unfold recordSettlement
  split
  · rfl
  · split <;> rfl

/-- The status a graph may settle from. -/
def Live (s : GraphState) : Prop :=
  s.graph.settledAt = none ∧ (s.graph.status = .running ∨ s.graph.status = .waitingApproval)

/-- `_settle` either finds the graph settled, or settles it and records the settlement. -/
theorem settle_cases (s : GraphState) (status : GraphStatus) (now : Time) :
    (¬ s.Live ∧ s.settle status now = (s, none)) ∨
    ∃ g, s.Live ∧ g = { s.graph with status, settledAt := some now, dateUpdated := now } ∧
      s.settle status now =
        ({ recordSettlement { s with graph := g } with
            journal := s.journal ++ [.graphSettled s.graph.generation status s.nodes.statuses] },
          some g) := by
  unfold settle
  split
  · rename_i hl
    refine .inr ⟨_, hl, rfl, ?_⟩
    simp
  · rename_i hl
    exact .inl ⟨hl, rfl⟩

@[simp] theorem settle_nodes (s : GraphState) (status : GraphStatus) (now : Time) :
    (s.settle status now).1.nodes = s.nodes := by
  rcases settle_cases s status now with ⟨_, h⟩ | ⟨g, _, _, h⟩
  · rw [h]
  · rw [h]
    exact recordSettlement_nodes _

@[simp] theorem settle_store (s : GraphState) (status : GraphStatus) (now : Time) :
    (s.settle status now).1.store = s.store := by
  rcases settle_cases s status now with ⟨_, h⟩ | ⟨g, _, _, h⟩
  · rw [h]
  · rw [h]
    exact recordSettlement_store _

/-- A settled graph that a gate parks. -/
def parkGraph (s : GraphState) (now : Time) : GraphState :=
  { s with graph := { s.graph with status := .waitingApproval, dateUpdated := now } }

/-- The returns of `_maybe_settle`. -/
theorem maybeSettle_cases (s : GraphState) (now : Time) :
    (s.nodes.quiescence = .busy ∧ s.maybeSettle now = (s, none)) ∨
    (∃ status, s.nodes.quiescence = .settle status ∧ s.maybeSettle now = s.settle status now) ∨
    (s.nodes.quiescence = .park ∧ s.graph.status = .running ∧
      s.maybeSettle now = (s.parkGraph now, none)) ∨
    (s.nodes.quiescence = .park ∧ s.graph.status ≠ .running ∧ s.maybeSettle now = (s, none)) ∨
    (s.nodes.quiescence = .fallThrough ∧
      s.maybeSettle now = ({ s with journal := s.journal ++ [.fellThrough] }, none)) := by
  unfold maybeSettle
  cases h : s.nodes.quiescence with
  | busy => exact .inl ⟨rfl, rfl⟩
  | settle status => exact .inr (.inl ⟨status, rfl, rfl⟩)
  | park =>
    by_cases hr : s.graph.status = .running
    · exact .inr (.inr (.inl ⟨rfl, hr, by simp [hr, parkGraph]⟩))
    · exact .inr (.inr (.inr (.inl ⟨rfl, hr, by simp [hr]⟩)))
  | fallThrough => exact .inr (.inr (.inr (.inr ⟨rfl, rfl⟩)))

@[simp] theorem maybeSettle_nodes (s : GraphState) (now : Time) :
    (s.maybeSettle now).1.nodes = s.nodes := by
  rcases maybeSettle_cases s now with
    ⟨_, h⟩ | ⟨status, _, h⟩ | ⟨_, _, h⟩ | ⟨_, _, h⟩ | ⟨_, h⟩
  · rw [h]
  · rw [h, settle_nodes]
  · rw [h]
    rfl
  · rw [h]
  · rw [h]

@[simp] theorem maybeSettle_store (s : GraphState) (now : Time) :
    (s.maybeSettle now).1.store = s.store := by
  rcases maybeSettle_cases s now with
    ⟨_, h⟩ | ⟨status, _, h⟩ | ⟨_, _, h⟩ | ⟨_, _, h⟩ | ⟨_, h⟩
  · rw [h]
  · rw [h, settle_store]
  · rw [h]
    rfl
  · rw [h]
  · rw [h]

theorem settle_filterMap {β : Type} (g : JournalEntry → Option β)
    (hg : ∀ generation outcome nodes, g (.graphSettled generation outcome nodes) = none)
    (s : GraphState) (status : GraphStatus) (now : Time) :
    (s.settle status now).1.journal.filterMap g = s.journal.filterMap g := by
  rcases settle_cases s status now with ⟨_, hs⟩ | ⟨_, _, _, hs⟩
  · rw [hs]
  · rw [hs]
    simp [hg]

/-- Settling and parking add no entry of any kind but settlements to the journal. -/
theorem maybeSettle_filterMap {β : Type} (g : JournalEntry → Option β)
    (hg : ∀ generation outcome nodes, g (.graphSettled generation outcome nodes) = none)
    (hf : g .fellThrough = none) (s : GraphState) (now : Time) :
    (s.maybeSettle now).1.journal.filterMap g = s.journal.filterMap g := by
  rcases maybeSettle_cases s now with
    ⟨_, h⟩ | ⟨status, _, h⟩ | ⟨_, _, h⟩ | ⟨_, _, h⟩ | ⟨_, h⟩
  · rw [h]
  · rw [h]
    exact settle_filterMap g hg s status now
  · rw [h]
    rfl
  · rw [h]
  · rw [h]
    simp [hf]

theorem live_iff_not_terminal (st : GraphStatus) :
    ¬ st.Terminal ↔ st = .running ∨ st = .waitingApproval := by
  cases st <;> simp [GraphStatus.Terminal]

/-- The rows `start` inserts before it dispatches. -/
structure Inserted (plan : GraphPlan) (id : GraphId) (s : GraphState) : Prop where
  id : s.graph.id = id
  nodes : s.nodes = plan.nodes.mapIdx (GraphPlan.nodeRow plan.nodes)
  status : s.graph.status = .running
  settledAt : s.graph.settledAt = none
  generation : s.graph.generation = 1
  onSettled : s.graph.onSettled = plan.onSettled
  budgets : GraphPlan.validatedBudgets plan.budgets = .ok s.graph.budgets
  settlements : s.settlements = []
  store : s.store = {}
  journal : s.journal = []

theorem start_ok {conf : RetryDefaults} {plan : GraphPlan} {id : GraphId} {now : Time}
    {s : GraphState} (h : start conf plan id now = .ok s) :
    ∃ s₀ t, plan.check = .ok () ∧ Inserted plan id s₀ ∧ dispatchFrontier conf now s₀ = .ok t ∧
      s = (t.maybeSettle now).1 := by
  obtain ⟨_, hcheck, h⟩ := Transaction.bind_eq_ok.mp h
  obtain ⟨budgets, hbudgets, h⟩ := Transaction.bind_eq_ok.mp h
  obtain ⟨t, ht, h⟩ := Transaction.bind_eq_ok.mp h
  cases h
  exact ⟨_, t, hcheck, ⟨rfl, rfl, rfl, rfl, rfl, rfl, hbudgets, rfl, rfl, rfl⟩, ht, rfl⟩

theorem skip_ok {conf : RetryDefaults} {s : GraphState} {key : String} {reason : Option String}
    {now : Time} {r : GraphState × Option QraftGraph} (h : s.skip conf key reason now = .ok r) :
    ∃ t, s.graph.status = .running ∧
      dispatchFrontier conf now (s.updateNodes (fun n => n.key = key && n.status = .pending)
        (skipNode reason now)) = .ok t ∧ r = t.maybeSettle now := by
  unfold skip at h
  split at h
  · cases h
  rename_i hrun
  split at h
  · cases h
  split at h
  · cases h
  obtain ⟨t, ht, h⟩ := Transaction.bind_eq_ok.mp h
  cases h
  exact ⟨t, not_not.mp hrun, ht, rfl⟩

theorem cancel_ok {s : GraphState} {now : Time} {r : GraphState × Option QraftGraph}
    (h : s.cancel now = .ok r) : s.Live ∧ r = s.settle .cancelled now := by
  unfold cancel at h
  rcases settle_cases s .cancelled now with ⟨_, he⟩ | ⟨g, hl, _, he⟩
  · rw [he] at h
    cases h
  · rw [he] at h ⊢
    cases h
    exact ⟨hl, rfl⟩

theorem resume_ok {conf : RetryDefaults} {s : GraphState} {nodes : Option (List String)}
    {now : Time} {r : GraphState × Nat} (h : s.resume conf nodes now = .ok r) :
    ∃ rerun t, (s.graph.status = .succeeded ∨ s.graph.status = .failed) ∧
      s.nodes.rerunClosure s.graph.id nodes = .ok rerun ∧ rerun ≠ [] ∧
      dispatchFrontier conf now (s.recordSettlement.rewind rerun now) = .ok t ∧
      r = ((t.maybeSettle now).1, rerun.length) := by
  unfold resume at h
  split at h
  · cases h
  rename_i hlive
  split at h
  · cases h
  rename_i hcancelled
  split at h
  · cases h
  obtain ⟨rerun, hrerun, h⟩ := Transaction.bind_eq_ok.mp h
  split at h
  · cases h
  rename_i hne
  obtain ⟨t, ht, h⟩ := Transaction.bind_eq_ok.mp h
  cases h
  refine ⟨rerun, t, ?_, hrerun, hne, ht, rfl⟩
  cases hs : s.graph.status with
  | running => exact absurd (.inl hs) hlive
  | waitingApproval => exact absurd (.inr hs) hlive
  | cancelled => exact absurd hs hcancelled
  | succeeded => exact .inl rfl
  | failed => exact .inr rfl

theorem parkedNode_ok {s : GraphState} {key : String} {node : QraftGraphNode}
    (h : s.parkedNode key = .ok node) :
    ¬ s.graph.status.Terminal ∧ node ∈ s.nodes ∧ node.key = key ∧ node.status = .waitingApproval := by
  unfold parkedNode at h
  split at h
  · cases h
  rename_i hlive
  split at h
  · cases h
  rename_i found hfound
  split at h
  · cases h
  rename_i hw
  cases h
  obtain ⟨hn, hk⟩ := node?_eq_some hfound
  exact ⟨(live_iff_not_terminal _).mpr (not_not.mp hlive), hn, hk, not_not.mp hw⟩

/-- The status a gate's decision puts a parked graph back to. -/
def wake (g : QraftGraph) : QraftGraph :=
  { g with status := if g.status = .waitingApproval then .running else g.status }

theorem approve_ok {conf : RetryDefaults} {s s' : GraphState} {key : String} {now : Time}
    (h : s.approve conf key now = .ok s') :
    ∃ node task, ¬ s.graph.status.Terminal ∧ node ∈ s.nodes ∧ node.key = key ∧
      node.status = .waitingApproval ∧
      DispatchedTask (s.updateNodes (fun n => n.key = key) release) (release node) task ∧
      ∃ date, s' = { (s.updateNodes (fun n => n.key = key) release).afterDispatch (release node)
        task now with graph := { wake s.graph with dateUpdated := date } } := by
  obtain ⟨node, hparked, h⟩ := Transaction.bind_eq_ok.mp h
  obtain ⟨hlive, hn, hk, hw⟩ := parkedNode_ok hparked
  obtain ⟨t, ht, h⟩ := Transaction.bind_eq_ok.mp h
  obtain ⟨task, hd, rfl⟩ := dispatchNode_ok ht
  refine ⟨node, task, hlive, hn, hk, hw, hd, ?_⟩
  split at h
  · rename_i hwait
    cases h
    exact ⟨now, by simp [wake, hwait, afterDispatch, updateNodes]⟩
  · rename_i hwait
    cases h
    exact ⟨s.graph.dateUpdated, by simp [wake, hwait, afterDispatch, updateNodes]⟩

theorem reject_ok {s : GraphState} {key : String} {reason : Option String} {now : Time}
    {r : GraphState × Option QraftGraph} (h : s.reject key reason now = .ok r) :
    ∃ node, ¬ s.graph.status.Terminal ∧ node ∈ s.nodes ∧ node.key = key ∧
      node.status = .waitingApproval ∧
      r = { s.updateNodes (fun n => n.key = key) (rejectNode reason now) with
        graph := wake s.graph }.maybeSettle now := by
  obtain ⟨node, hparked, h⟩ := Transaction.bind_eq_ok.mp h
  obtain ⟨hlive, hn, hk, hw⟩ := parkedNode_ok hparked
  refine ⟨node, hlive, hn, hk, hw, ?_⟩
  dsimp only at h
  split at h
  · rename_i hwait
    cases h
    simp only [updateNodes] at hwait ⊢
    simp [wake, hwait]
  · rename_i hwait
    cases h
    simp only [updateNodes] at hwait ⊢
    simp [wake, hwait]

theorem taskOutcome_cases {st : TaskStatus} {outcome : NodeStatus}
    (h : taskOutcome st = some outcome) : outcome = .succeeded ∨ outcome = .failed := by
  cases st <;> simp [taskOutcome] at h <;> simp [← h]

/-- A completion is dropped, or it is the first of the task its node is bound to. -/
theorem handleNodeCompletion_cases {conf : RetryDefaults} {s : GraphState} {task : QraftTask}
    {now : Time} {r : GraphState × Option QraftGraph}
    (h : s.handleNodeCompletion conf task now = .ok r) :
    r = (s, none) ∨ ∃ node outcome recorded, node ∈ s.nodes ∧ task.graphNode = some node.key ∧
      taskOutcome task.status = some outcome ∧ node.task = some task.id ∧ node.settledAt = none ∧
      recorded = { s.updateNodes (fun n => n.key = node.key && n.settledAt = none)
          (recordOutcome outcome now) with
        journal := s.journal ++ [.outcomeRecorded node.key node.generation task.id outcome] } ∧
      ((s.graph.status = .running ∧ ∃ t, dispatchFrontier conf now recorded = .ok t ∧
        r = t.maybeSettle now) ∨
      (s.graph.status ≠ .running ∧ r = (recorded, none))) := by
  unfold handleNodeCompletion at h
  split at h
  · rename_i key outcome hkey hout
    split at h
    · cases h
      exact .inl rfl
    rename_i node hfound
    obtain ⟨hn, rfl⟩ := node?_eq_some hfound
    split at h
    · cases h
      exact .inl rfl
    rename_i hbound
    simp only [not_or, not_not] at hbound
    refine .inr ⟨node, outcome, _, hn, hkey, hout, hbound.1, hbound.2, rfl, ?_⟩
    dsimp only at h
    split at h
    · rename_i hr
      obtain ⟨t, ht, h⟩ := Transaction.bind_eq_ok.mp h
      cases h
      exact .inl ⟨hr, t, ht, rfl⟩
    · rename_i hr
      cases h
      exact .inr ⟨hr, rfl⟩
  · cases h
    exact .inl rfl

/-- A row before and after the frontier loop: untouched, parked or dispatched. -/
def TakenUp (now : Time) (n n' : QraftGraphNode) : Prop :=
  n' = n ∨ n.status = .pending ∧ (n' = park n ∨ ∃ id, n' = bindTask id now n)

theorem dispatchFrontier_rows {conf : RetryDefaults} {now : Time} {s s' : GraphState}
    (hc : Consistent s.nodes) (h : dispatchFrontier conf now s = .ok s') :
    ∀ n' ∈ s'.nodes, ∃ n ∈ s.nodes, TakenUp now n n' := by
  apply dispatchFrontier_invariant
    (fun t => ∀ n' ∈ t.nodes, ∃ n ∈ s.nodes, TakenUp now n n') _ hc _ h
  · intro t node t' _ _ ht hturn n' hn'
    have hrow : ∃ m ∈ t.nodes, n' = m ∨ m.status = .pending ∧
        (n' = park m ∨ ∃ id, n' = bindTask id now m) := by
      rcases dispatchOrPark_cases hturn with rfl | ⟨task, _, rfl⟩
      · obtain ⟨m, hm, rfl⟩ := Rows.mem_updateWhere.mp hn'
        refine ⟨m, hm, ?_⟩
        by_cases hp : m.key = node.key ∧ m.status = .pending
        · simp [hp]
        · simp [hp]
      · obtain ⟨m, hm, rfl⟩ := Rows.mem_updateWhere.mp hn'
        refine ⟨m, hm, ?_⟩
        by_cases hp : m.key = node.key ∧ m.status = .pending
        · exact .inr ⟨hp.2, .inr ⟨t.store.nextId, by simp [hp]⟩⟩
        · simp [hp]
    obtain ⟨m, hm, hstep⟩ := hrow
    obtain ⟨n, hn, hup⟩ := ht m hm
    refine ⟨n, hn, ?_⟩
    rcases hup with rfl | ⟨hs, hup⟩
    · exact hstep
    · rcases hstep with rfl | ⟨hms, _⟩
      · exact .inr ⟨hs, hup⟩
      · rcases hup with rfl | ⟨id, rfl⟩
        · simp [park] at hms
        · simp [bindTask] at hms
  · exact fun n hn => ⟨n, hn, .inl rfl⟩

end Qraft.GraphState
