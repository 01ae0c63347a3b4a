import Qraft.Foundations.Replay
import Qraft.Graphs.Delivery

/-! `handle_node_completion` of one attempt as a procedure of its own beside the outbox: run to its
end once, it finds its node settled or bound to another task. -/
namespace Qraft

/-- What happens between the runs of a routing: no `resume`. -/
def OutboxEvent.interleaves : OutboxEvent → Bool
  | .call _ (.resume _) => false
  | _ => true

namespace GraphState
open NodeTable

/-- The task was created, and where it is `done` its completion changes its node no more. -/
structure Closed (key : String) (task : TaskId) (done : Prop) (s : GraphState) : Prop where
  created : task < s.store.nextId
  node : done → ∀ n, s.nodes.node? key = some n → n.task ≠ some task ∨ n.settledAt ≠ none

section
variable {conf : RetryDefaults} {now : Time} {s t : GraphState} {e : GraphEvent} {key : String}
  {task : TaskId} {done : Prop}

/-- The row under a key after a write that keeps the keys. -/
theorem node?_updateWhere {p : QraftGraphNode → Bool} {f : QraftGraphNode → QraftGraphNode}
    (hf : ∀ n, (f n).key = n.key) (nodes : NodeTable) (key : String) :
    node? (Rows.updateWhere p f nodes) key = (nodes.node? key).map fun n => if p n then f n else n := by
  have keeps (n : QraftGraphNode) : (if p n then f n else n).key = n.key := by
    split
    · exact hf n
    · rfl
  exact Rows.get?_map keeps nodes key

namespace Closed

/-- A write that binds nothing and reopens nothing. -/
theorem updateNodes (h : s.Closed key task done) {p : QraftGraphNode → Bool}
    {f : QraftGraphNode → QraftGraphNode} (hk : ∀ n, (f n).key = n.key)
    (ht : ∀ n, (f n).task = some task → n.task = some task)
    (hs : ∀ n, n.settledAt ≠ none → (f n).settledAt ≠ none) :
    (s.updateNodes p f).Closed key task done := by
  refine ⟨h.created, ?_⟩
  intro hd n' hn'
  have hn' : node? (Rows.updateWhere p f s.nodes) key = some n' := hn'
  rw [node?_updateWhere hk, Option.map_eq_some_iff] at hn'
  obtain ⟨n, hn, rfl⟩ := hn'
  split
  · exact (h.node hd n hn).imp (fun hne he => hne (ht n he)) (hs n)
  · exact h.node hd n hn

/-- A dispatch binds a node to a new task. -/
theorem afterDispatch (h : s.Closed key task done) (node : QraftGraphNode) (row : QraftTask) (now : Time) :
    (s.afterDispatch node row now).Closed key task done := by
  have hbound := h.updateNodes (p := fun n => n.key = node.key && n.status = .pending)
    (f := bindTask s.store.nextId now) (fun _ => rfl) ?_ (fun _ hs => hs)
  · exact ⟨Nat.lt_of_lt_of_le h.created (Nat.le_add_right _ 2), hbound.node⟩
  · intro n he
    exact absurd (Option.some.inj he).symm (Nat.ne_of_lt h.created)

theorem congr (h : s.Closed key task done) (hn : t.nodes = s.nodes) (hs : t.store.nextId = s.store.nextId) :
    t.Closed key task done := by
  refine ⟨?_, ?_⟩
  · rw [hs]
    exact h.created
  · rw [hn]
    exact h.node

theorem frontier (h : s.Closed key task done) (hd : dispatchFrontier conf now s = .ok t) :
    t.Closed key task done := by
  unfold dispatchFrontier at hd
  split at hd
  · cases hd
    exact h
  · apply Transaction.foldlM_invariant (fun _ t => Closed key task done t) _ h hd
    intro node _ u v hu hturn
    rcases dispatchOrPark_cases hturn with rfl | ⟨row, -, rfl⟩
    · exact hu.updateNodes (fun _ => rfl) (fun _ ht => ht) fun _ hs => hs
    · exact hu.afterDispatch node row now

theorem maybeSettle (h : s.Closed key task done) (now : Time) : (s.maybeSettle now).1.Closed key task done :=
  h.congr (maybeSettle_nodes s now) (congrArg TaskStore.nextId (maybeSettle_store s now))

/-- Only a `resume` opens a node for another completion of its task. -/
theorem call (h : s.Closed key task done) (he : ∀ nodes, e ≠ .resume nodes)
    {r : GraphState × Option QraftGraph} (hc : s.call conf now e = .ok r) : r.1.Closed key task done := by
  rcases call_cases hc with ⟨row, -, hc⟩ | ⟨k, reason, -, hc⟩ | ⟨-, hc⟩ | ⟨k, -, -, hc⟩ |
    ⟨k, reason, -, hc⟩ | ⟨nodes, n, rfl, -, -⟩
  · rcases handleNodeCompletion_cases hc with rfl | ⟨node, outcome, recorded, -, -, -, -, -, hrec, hrest⟩
    · exact h
    · have hclosed : recorded.Closed key task done := by
        have hup := h.updateNodes (p := fun n => n.key = node.key && n.settledAt = none)
          (f := recordOutcome outcome now) (fun _ => rfl) (fun _ ht => ht)
          fun _ _ => Option.some_ne_none now
        rw [hrec]
        exact ⟨hup.created, hup.node⟩
      rcases hrest with ⟨-, u, hu, rfl⟩ | ⟨-, rfl⟩
      · exact (hclosed.frontier hu).maybeSettle now
      · exact hclosed
  · obtain ⟨u, -, hu, rfl⟩ := skip_ok hc
    have hskip := h.updateNodes (p := fun n => n.key = k && n.status = .pending)
      (f := skipNode reason now) (fun _ => rfl) (fun _ ht => ht) fun _ _ => Option.some_ne_none now
    exact (hskip.frontier hu).maybeSettle now
  · obtain ⟨-, rfl⟩ := cancel_ok hc
    exact h.congr (settle_nodes s _ now) (congrArg TaskStore.nextId (settle_store s _ now))
  · obtain ⟨node, row, -, -, -, -, -, date, hr⟩ := approve_ok hc
    have hrel := h.updateNodes (p := fun n => n.key = k) (f := release) (fun _ => rfl) (fun _ ht => ht)
      fun _ hs => hs
    rw [hr]
    exact (hrel.afterDispatch (release node) row now).congr rfl rfl
  · obtain ⟨node, -, -, -, -, rfl⟩ := reject_ok hc
    have hrej := h.updateNodes (p := fun n => n.key = k) (f := rejectNode reason now) (fun _ => rfl)
      (fun _ ht => ht) fun _ _ => Option.some_ne_none now
    have hwake : ({ s.updateNodes (fun n => n.key = k) (rejectNode reason now) with
      graph := wake s.graph } : GraphState).Closed key task done := hrej.congr rfl rfl
    exact hwake.maybeSettle now
  · exact absurd rfl (he nodes)

end Closed

/-- A completion of a task that is done is dropped. -/
theorem handleNodeCompletion_closed (h : s.Closed key task True) {row : QraftTask} (hid : row.id = task)
    (hkey : row.graphNode = some key) : s.handleNodeCompletion conf row now = .ok (s, none) := by
  unfold handleNodeCompletion
  split
  · rename_i k outcome hk _
    obtain rfl := Option.some.inj (hkey.symm.trans hk)
    split
    · rfl
    · rename_i node hfound
      rw [if_pos]
      rw [hid]
      exact h.node trivial node hfound
  · rfl

/-- The first completion that has an outcome leaves its task done. -/
theorem closed_of_completion (h : s.Closed key task False) {row : QraftTask}
    {r : GraphState × Option QraftGraph} (hc : s.handleNodeCompletion conf row now = .ok r)
    (hid : row.id = task) (hkey : row.graphNode = some key) (hout : taskOutcome row.status ≠ none) :
    r.1.Closed key task True := by
  unfold handleNodeCompletion at hc
  split at hc
  · rename_i k outcome hk _
    obtain rfl := Option.some.inj (hkey.symm.trans hk)
    split at hc
    · rename_i hnone
      cases hc
      refine ⟨h.created, fun _ n hn => ?_⟩
      cases hnone.symm.trans hn
    · rename_i node hfound
      split at hc
      · rename_i hdrop
        cases hc
        refine ⟨h.created, fun _ n hn => ?_⟩
        obtain rfl := Option.some.inj (hfound.symm.trans hn)
        rw [hid] at hdrop
        exact hdrop
      · rename_i hbound
        simp only [not_or, not_not] at hbound
        have hclosed : ({ s.updateNodes (fun n => n.key = key && n.settledAt = none)
            (recordOutcome outcome now) with
          journal := s.journal ++ [.outcomeRecorded key node.generation row.id outcome] } :
            GraphState).Closed key task True := by
          refine ⟨h.created, fun _ n hn => .inr ?_⟩
          have hn : node? (Rows.updateWhere (fun n => n.key = key && n.settledAt = none)
            (recordOutcome outcome now) s.nodes) key = some n := hn
          rw [node?_updateWhere (f := recordOutcome outcome now) (fun _ => rfl), hfound,
            Option.map_some] at hn
          have hkey : node.key = key := (node?_eq_some hfound).2
          simp only [hkey, hbound.2, decide_true, Bool.and_self, if_true] at hn
          cases hn
          exact Option.some_ne_none now
        dsimp only at hc
        split at hc
        · obtain ⟨u, hu, hc⟩ := Transaction.bind_eq_ok.mp hc
          cases hc
          exact (hclosed.frontier hu).maybeSettle now
        · cases hc
          exact hclosed
  · rename_i hnot
    cases hs : taskOutcome row.status with
    | none => exact absurd hs hout
    | some outcome => exact absurd hs (hnot key outcome hkey)

end
end GraphState

namespace Outbox
open GraphState

/-- `handle_node_completion` for an attempt of a node's task, by a process that reads the status of the
task first. What it settles is left with the calls still to be made. -/
def routing (conf : RetryDefaults) (id : GraphId) (task : QraftTask) :
    Procedure Outbox (Option TaskStatus) Time where
  enter w := (w.graph? id).bind fun s => (s.store.task? task.id).map fun t => t.status
  halted status := status.isNone
  next now w status := status.bind fun status =>
    (w.step conf now (.call id (.completion { task with status }))).map fun w' => (w', none)

/-- The process reads a status with an outcome: SUCCEEDED, FAILED or EXHAUSTED. -/
def readsFinal (_ : Outbox) (status : Option TaskStatus) : Prop :=
  ∀ st, status = some st → taskOutcome st ≠ none

/-- What is known of the graph with an id, as long as it is there. -/
structure Watched (id : GraphId) (Q : GraphState → Prop) (w : Outbox) : Prop where
  sound : w.Sound
  created : id < w.nextId
  graph : ∀ s, w.graph? id = some s → Q s

section
variable {conf : RetryDefaults} {w w' : Outbox} {now : Time} {e : OutboxEvent} {id : GraphId}
  {Q R : GraphState → Prop} {s t : GraphState}

theorem graph?_of_mem (h : w.Sound) (hs : s ∈ w.graphs) : w.graph? s.graph.id = some s := by
  have hids : (w.graphs.map fun s => s.graph.id).Nodup := by
    have hall := h.ids
    rw [history, List.map_append] at hall
    exact (List.nodup_append.mp hall).1
  exact Rows.get?_of_mem hids hs

/-- Saving the row that was read changes nothing. -/
theorem saveGraph_self (h : w.Sound) (hs : w.graph? id = some s) : w.saveGraph id s = w := by
  obtain ⟨hmem, hid⟩ := graph?_eq_some hs
  have hrows : Rows.updateWhere (fun t : GraphState => t.graph.id = id) (fun _ => s) w.graphs = w.graphs := by
    apply Rows.updateWhere_eq_self
    intro t ht hp
    have hp := of_decide_eq_true hp
    exact h.eq_of_id (mem_history_of_graph hmem) (mem_history_of_graph ht) (hid.trans hp.symm)
  rw [saveGraph, hrows]

/-- The graph under an id after another one, or itself, is saved. -/
private theorem watched_save (h : w.Watched id Q) {other : GraphId} (hs : w.graph? other = some s)
    (hk : Keeps s t) (hq : other = id → Q s → R t) (hr : other ≠ id → ∀ s, Q s → R s)
    (hsound : w'.Sound) (hg : w'.graphs = (w.saveGraph other t).graphs) (hn : w'.nextId = w.nextId) :
    w'.Watched id R := by
  obtain ⟨hmem, hid⟩ := graph?_eq_some hs
  refine ⟨hsound, hn ▸ h.created, ?_⟩
  intro u hu
  have hu : Rows.get? (fun s : GraphState => s.graph.id)
      (w.graphs.map fun r => if r.graph.id = other then t else r) id = some u := by
    rw [graph?, hg, saveGraph, Rows.updateWhere] at hu
    simpa only [decide_eq_true_eq] using hu
  rw [Rows.get?_map, Option.map_eq_some_iff] at hu
  · obtain ⟨r, hg', rfl⟩ := hu
    split
    · rename_i hro
      have hoi : other = id := hro.symm.trans (Rows.get?_eq_some hg').2
      have hs : w.graph? id = some s := hoi ▸ hs
      obtain rfl := Option.some.inj (hs.symm.trans hg')
      exact hq hoi (h.graph s hs)
    · rename_i hro
      exact hr (fun hoi => hro ((Rows.get?_eq_some hg').2.trans hoi.symm)) r (h.graph r hg')
  · intro r
    split
    · rename_i hro
      rw [hk.id, hid, hro]
    · rfl

/-- What every call but a `resume` keeps of a graph, all the steps keep. -/
private theorem watched_step (hcall : ∀ s ev r, Q s → (∀ nodes, ev ≠ .resume nodes) →
      s.call conf now ev = .ok r → Q r.1)
    (htasks : ∀ s rows, Q s → Q (setTasks s rows)) (hbridge : ∀ s, Q s → Q s.recordSettlement)
    (h : w.Watched id Q) (he : e.interleaves = true) (hstep : w.step conf now e = some w') :
    w'.Watched id Q := by
  have hsound := step_sound h.sound hstep
  have same (hg : w'.graphs = w.graphs) (hn : w.nextId ≤ w'.nextId) : w'.Watched id Q := by
    refine ⟨hsound, Nat.lt_of_lt_of_le h.created hn, ?_⟩
    intro s hs
    rw [graph?, hg] at hs
    exact h.graph s hs
  cases e with
  | start plan =>
    obtain ⟨s, hs, rfl⟩ := Option.map_eq_some_iff.mp hstep
    obtain ⟨-, hid⟩ := start_ledger (Transaction.toOption_eq_some.mp hs)
    refine ⟨hsound, Nat.lt_succ_of_lt h.created, ?_⟩
    intro u hu
    obtain ⟨hmem, huid⟩ := graph?_eq_some hu
    rcases List.mem_append.mp hmem with hmem | hmem
    · exact h.graph u (huid ▸ graph?_of_mem h.sound hmem)
    · rw [List.mem_singleton.mp hmem, hid] at huid
      exact absurd huid.symm (Nat.ne_of_lt h.created)
  | call other ev =>
    obtain ⟨s, hs, hstep⟩ := Option.bind_eq_some_iff.mp hstep
    obtain ⟨r, hr, rfl⟩ := Option.map_eq_some_iff.mp hstep
    have hr := Transaction.toOption_eq_some.mp hr
    apply watched_save h hs (call_keeps hr) _ (fun _ _ hq => hq) hsound rfl rfl
    intro _ hq
    apply hcall s ev r hq _ hr
    rintro nodes rfl
    cases he
  | tasks other rows =>
    obtain ⟨s, hs, rfl⟩ := Option.map_eq_some_iff.mp hstep
    exact watched_save h hs (setTasks_keeps s rows) (fun _ hq => htasks s rows hq) (fun _ _ hq => hq)
      hsound rfl rfl
  | bridge other =>
    obtain ⟨s, hs, rfl⟩ := Option.map_eq_some_iff.mp hstep
    split at hsound
    · rename_i hset
      rw [if_pos hset]
      have hledger := h.sound.ledger s (mem_history_of_graph (graph?_eq_some hs).1)
      exact watched_save h hs (bridge_keeps s hledger hset) (fun _ hq => hbridge s hq) (fun _ _ hq => hq)
        hsound rfl rfl
    · rename_i hset
      rw [if_neg hset]
      exact h
  | announce i =>
    obtain ⟨g, -, rfl⟩ := Option.map_eq_some_iff.mp hstep
    exact same rfl (Nat.le_refl _)
  | loseCall i | replay cutoff | drop i | sweepDispatches ids cutoff =>
    cases hstep
    exact same rfl (Nat.le_refl _)
  | offer i =>
    obtain ⟨r, -, rfl⟩ := Option.map_eq_some_iff.mp hstep
    have hoff : (w.dispatchHookOnce r now).graphs = w.graphs ∧
        w.nextId ≤ (w.dispatchHookOnce r now).nextId := by
      unfold dispatchHookOnce
      split
      · exact ⟨rfl, Nat.le_refl _⟩
      · exact ⟨rfl, Nat.le_add_right _ 2⟩
    exact same hoff.1 hoff.2
  | sweepGraphs ids cutoff =>
    cases hstep
    refine ⟨hsound, h.created, ?_⟩
    intro u hu
    obtain ⟨hmem, huid⟩ := graph?_eq_some hu
    exact h.graph u (huid ▸ graph?_of_mem h.sound (List.mem_of_mem_filter hmem))

/-- What steps keep of the node's fence. -/
private theorem closed_step {key : String} {task : TaskId} {done : Prop}
    (h : w.Watched id (Closed key task done)) (he : e.interleaves = true)
    (hstep : w.step conf now e = some w') : w'.Watched id (Closed key task done) := by
  apply watched_step _ _ _ h he hstep
  · exact fun s ev r hs hev hr => hs.call hev hr
  · intro s rows hs
    refine ⟨hs.created, ?_⟩
    intro hd n' hn'
    have hn' : Rows.get? (fun n : QraftGraphNode => n.key) (s.nodes.map fun n =>
      { n with task := n.task.filter fun id => rows.any fun t => t.id = id }) key = some n' := hn'
    rw [Rows.get?_map, Option.map_eq_some_iff] at hn'
    · obtain ⟨n, hn, rfl⟩ := hn'
      refine (hs.node hd n hn).imp_left fun hne he => hne ?_
      exact (Option.filter_eq_some_iff.mp he).1
    · exact fun _ => rfl
  · exact fun s hs => hs.congr (recordSettlement_nodes s)
      (congrArg TaskStore.nextId (recordSettlement_store s))

/-- Routing a completion of a node's task is safe to replay. -/
theorem routing_replaySafe {task : QraftTask} {key : String} (h : (outboxSystem conf).Reach w)
    (hs : w.graph? id = some s) (ht : s.store.task? task.id = some task)
    (hkey : task.graphNode = some key) (hid : task.id < s.store.nextId) :
    (routing conf id task).ReplaySafe (outboxSystem conf) (fun e => e.1.interleaves = true) readsFinal w := by
  have habs : (routing conf id task).Absorbs (outboxSystem conf) (fun e => e.1.interleaves = true)
      (Watched id (Closed key task.id True)) (fun _ _ => True) := by
    refine ⟨?_, fun _ _ => trivial, fun _ _ _ _ _ _ _ _ => trivial, ?_⟩
    · exact fun w e w' hw he hstep => closed_step hw he hstep
    · rintro w now status w' status' hw - hhalt hn
      obtain ⟨st, rfl, hn⟩ := Option.bind_eq_some_iff.mp hn
      obtain ⟨u, hu, he⟩ := Option.map_eq_some_iff.mp hn
      cases he
      obtain ⟨s, hs, hu⟩ := Option.bind_eq_some_iff.mp hu
      obtain ⟨r, hr, rfl⟩ := Option.map_eq_some_iff.mp hu
      have hr : s.handleNodeCompletion conf { task with status := st } now = .ok r :=
        Transaction.toOption_eq_some.mp hr
      have hdrop : s.handleNodeCompletion conf { task with status := st } now = .ok (s, none) :=
        handleNodeCompletion_closed (hw.graph s hs) rfl hkey
      rw [hdrop] at hr
      cases hr
      refine ⟨?_, trivial⟩
      rw [saveGraph_self hw.sound hs]
      simp
  apply habs.replaySafe fun w status => w.Watched id (Closed key task.id (status = none))
  · exact fun w e w' status hw he hstep => closed_step hw he hstep
  · rintro w now status w' status' hw hf hn
    obtain ⟨st, rfl, hn⟩ := Option.bind_eq_some_iff.mp hn
    obtain ⟨u, hu, he⟩ := Option.map_eq_some_iff.mp hn
    cases he
    have hsound := step_sound hw.sound hu
    obtain ⟨s, hs, hu⟩ := Option.bind_eq_some_iff.mp hu
    obtain ⟨r, hr, rfl⟩ := Option.map_eq_some_iff.mp hu
    have hr := Transaction.toOption_eq_some.mp hr
    have hcompleted : s.handleNodeCompletion conf { task with status := st } now = .ok r := hr
    apply watched_save hw hs (call_keeps hr) _ (fun hne => absurd rfl hne) hsound rfl rfl
    intro _ hopen
    have hfirst : s.Closed key task.id False := ⟨hopen.created, nofun⟩
    have hdone := closed_of_completion hfirst hcompleted rfl hkey (hf st rfl)
    exact ⟨hdone.created, fun _ => hdone.node trivial⟩
  · rintro w status hw hhalt
    have hnone : status = none := Option.isNone_iff_eq_none.mp hhalt
    exact ⟨hw.sound, hw.created, fun s hs => ⟨(hw.graph s hs).created, fun _ => (hw.graph s hs).node hnone⟩⟩
  · have hsound : w.Sound := reach_sound h
    obtain ⟨hmem, hgid⟩ := graph?_eq_some hs
    refine ⟨hsound, hgid ▸ hsound.fresh s (mem_history_of_graph hmem), ?_⟩
    intro u hu
    obtain rfl := Option.some.inj (hs.symm.trans hu)
    refine ⟨hid, fun hnone => ?_⟩
    simp only [routing, hs, Option.bind_some, ht, Option.map_some] at hnone
    cases hnone

end
end Outbox
end Qraft
