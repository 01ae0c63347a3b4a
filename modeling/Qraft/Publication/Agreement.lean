import Qraft.Graphs.Conclusions
import Qraft.Lifecycle.Orderly
import Qraft.Publication.Authority

/-! Whether a node and its task say the same: so long as nobody requeues a task of the graph or reaps
it on a superseded read, an outcome on a node is the last word on its task. -/
namespace Qraft

namespace Lifecycle
variable {limit : Nat} {l l' : Lifecycle} {env : Env} {e : LifecycleEvent}

def owned (l : Lifecycle) (s : GraphState) (i : TaskId) : Bool := (l.store.task? i).any s.owns

theorem owned_eq {s : GraphState} {i : TaskId} {t : QraftTask} (ht : l.store.task? i = some t) :
    l.owned s i = s.owns t := by
  unfold owned
  rw [ht]
  rfl

theorem keepsOrder_owned (hd : l.store.Distinct) (s : GraphState) (hstep : l.step limit env e = some l')
    (hord : l.orderlyFor (l.owned s) e = true) : l.KeepsOrder e (l.owned s) (l'.owned s) := by
  intro i t ht hp'
  obtain ⟨t', ht', heff⟩ := step_task hd hstep ht
  obtain ⟨-, hg, hn⟩ := heff.node
  have hp : l.owned s i = true := by
    rw [owned_eq ht, ← owns_congr hg hn, ← owned_eq ht']
    exact hp'
  exact ⟨hp, orderlyFor_single hord hp⟩

end Lifecycle

namespace GraphState

def verdictOutcome (v : Bool) : NodeStatus := if v then .succeeded else .failed

theorem taskOutcome_verdict {st : TaskStatus} {v : Bool} (h : st.verdict = some v) :
    taskOutcome st = some (verdictOutcome v) := by
  cases st with
  | pending | running => cases h
  | succeeded | failed | exhausted =>
    cases h
    rfl

end GraphState

namespace Publishing
open GraphState

/-- A step that leaves the tasks of the graph in order: it neither requeues one of them nor reaps one
on a superseded read. -/
def undisturbed (w : Publishing) : PublishEvent → Bool
  | .table e => w.life.orderlyFor (w.life.owned w.graph) e
  | _ => true

/-- What was decided of a task, and nothing of it is open. -/
def Ended (l : Lifecycle) (task : TaskId) (outcome : NodeStatus) : Prop :=
  ∃ t attempt v, l.store.task? task = some t ∧ Lifecycle.DecidedBy t attempt v ∧ outcome = verdictOutcome v

/-- Nodes, outcomes and tasks go together. -/
structure Agreed (w : Publishing) : Prop where
  table : w.life.Orderly (w.life.owned w.graph)
  concluded : w.graph.Concluded
  outcomes : ∀ k g i o, (k, g, i, o) ∈ w.graph.outcomes → Ended w.life i o

section
variable {conf : RetryDefaults} {limit : Nat} {w w' : Publishing} {env : Env}

/-- The row of a task that has reported is one of the graph's. -/
theorem Tied.reported (h : w.Tied) (hs : w.Sound limit) {k : String} {g : Nat} {i : TaskId} {o : NodeStatus}
    (ho : (k, g, i, o) ∈ w.graph.outcomes) {t : QraftTask} (ht : w.life.store.task? i = some t) :
    w.graph.owns t = true := by
  have hcre := (hs.journaled.recorded k g i o ho).1
  have hpair := List.mem_map_of_mem (f := fun c : String × Nat × TaskId => (some c.1, c.2.2)) hcre
  rw [← hs.journaled.tasks] at hpair
  obtain ⟨u, hu, he⟩ := List.mem_map.mp hpair
  have hid : u.id = i := (Prod.mk.inj he).2
  rw [← hid] at ht
  exact (h.rows u hu t ht).1

/-- The tasks a graph creates are in order. -/
private theorem orderly_adopt {l : Lifecycle} {s : GraphState} {g : GraphId} {now : Time}
    {st st' : TaskStore} (hg : Grown g now st st') (hn : l.store.nextId = st.nextId)
    (hd : l.store.Distinct) (hk : l.Known) (h : l.Orderly (l.owned s)) :
    (l.adopt st st').Orderly ((l.adopt st st').owned s) := by
  have hall : (l.adopt st st').store.Distinct ∧ (l.adopt st st').Known ∧
      (l.adopt st st').Orderly ((l.adopt st st').owned s) := by
    apply Lifecycle.adopt_invariant (fun l => l.store.Distinct ∧ l.Known ∧ l.Orderly (l.owned s)) _ hg
      ⟨hd, hk, h⟩ hn
    rintro l l' metadata cluster limit ⟨hd, hk, ho⟩ hstep
    exact ⟨(Lifecycle.step_rows hd hstep).1, hk.next hd hstep,
      ho.step hd hk hstep (Lifecycle.keepsOrder_owned hd s hstep rfl)⟩
  exact hall.2.2

namespace Agreed

private theorem step_table {e : LifecycleEvent} {life : Lifecycle} (h : w.Agreed) (hs : w.Sound limit)
    (ht : w.Tied) (hstep : w.life.step limit env e = some life)
    (hord : w.life.orderlyFor (w.life.owned w.graph) e = true) :
    ({ w with life } : Publishing).Agreed := by
  have hd := hs.distinct
  have hk := Lifecycle.reach_known hs.life
  refine ⟨h.table.step hd hk hstep (Lifecycle.keepsOrder_owned hd w.graph hstep hord), h.concluded, ?_⟩
  intro k g i o ho
  obtain ⟨t, attempt, v, hrow, hby, rfl⟩ := h.outcomes k g i o ho
  have hown := ht.reported hs ho hrow
  have hp : w.life.owned w.graph i = true := (Lifecycle.owned_eq hrow).trans hown
  obtain ⟨hmem, hid⟩ := TaskStore.task?_eq_some hrow
  have hft := h.table.firm t hmem (hid ▸ hp)
  obtain ⟨t', hrow', -, hn⟩ := hft.next hd hstep hrow hp hord
  exact ⟨t', attempt, v, hrow', hby.next hft.coherent hn, rfl⟩

private theorem step_call {e : GraphEvent} {now : Time} (h : w.Agreed) (hs : w.Sound limit)
    (hcall : w.call conf now e = .ok w')
    (he : ∀ task, e = .completion task → ∃ t attempt v, w.life.store.task? task.id = some t ∧
      Lifecycle.DecidedBy t attempt v ∧ task.status.verdict = some v) : w'.Agreed := by
  obtain ⟨r, hr, hgraph, hlife, -, -⟩ := call_ok hcall
  have hv := drawFrom_valid hs.valid w.life.store.nextId
  have hj := drawFrom_journaled hs.journaled hs.ids
  obtain ⟨s₀, hg₀, hstore, -, -, -, hmoved⟩ := call_moved hv hr
  have hgrown := hmoved.store
  rw [hstore] at hgrown
  have hid : r.1.graph.id = w.graph.graph.id := hmoved.id.trans (congrArg QraftGraph.id hg₀)
  obtain ⟨new, -, htasks, -, -, -⟩ := call_adds hs hcall
  have kept {i : TaskId} {o : NodeStatus} (hend : Ended w.life i o) : Ended w'.life i o := by
    obtain ⟨t, attempt, v, ht, hrest⟩ := hend
    refine ⟨t, attempt, v, ?_, hrest⟩
    unfold TaskStore.task?
    rw [htasks]
    exact Rows.get?_append ht new
  refine ⟨?_, ?_, ?_⟩
  · have hadopted := orderly_adopt hgrown rfl hs.distinct (Lifecycle.reach_known hs.life) h.table
    have hheed := Lifecycle.heed_store (w.life.adopt w.graph.store r.1.store) r.1.graph
    have hsame : w'.life.owned w'.graph = (w.life.adopt w.graph.store r.1.store).owned w.graph := by
      funext i
      unfold Lifecycle.owned
      rw [hlife, hheed, hgraph, Lifecycle.owns_eq hid]
    rw [hsame, hlife]
    refine hadopted.congr hheed ?_ ?_
    · unfold Lifecycle.heed
      split
      · rfl
      · rfl
    · unfold Lifecycle.heed
      split
      · rfl
      · rfl
  · rw [hgraph]
    have hconcluded : (w.graph.drawFrom w.life.store.nextId).Concluded := h.concluded
    exact hconcluded.call hv hj hr
  · intro k g i o ho
    rw [hgraph] at ho
    rcases call_outcomes hv hr ho with hold | ⟨task, hcomp, rfl, hout⟩
    · exact kept (h.outcomes k g i o hold)
    · obtain ⟨t, attempt, v, ht, hby, hverdict⟩ := he task hcomp
      rw [taskOutcome_verdict hverdict] at hout
      exact kept ⟨t, attempt, v, ht, hby, (Option.some.inj hout).symm⟩

theorem effect {e : PublishEvent} (h : w.Agreed) (hs : w.Sound limit) (ht : w.Tied)
    (hok : w.undisturbed e = true) (heff : PublishEffect conf limit w env e w') : w'.Agreed := by
  cases heff with
  | quiet | opened | noted | closed => exact ⟨h.table, h.concluded, h.outcomes⟩
  | table hf hstep => exact h.step_table hs ht hstep hok
  | called he hb hcall => exact h.step_call hs hcall fun task heq => absurd heq (he task)
  | @completed i held attempt w' hd hb ho hcall =>
    have hx := List.mem_of_getElem? hd
    have hdone := h.step_call hs hcall (by
      intro task heq
      cases heq
      obtain ⟨t, hrow, hg, hk⟩ := ht.due (held, attempt) hx
      have hown : w.graph.owns t = true := (Lifecycle.owns_congr hg hk).symm.trans ho
      have hp := (Lifecycle.owned_eq hrow).trans hown
      obtain ⟨v, hv, hby⟩ := h.table.due (held, attempt) hx hp t hrow
      exact ⟨t, attempt, v, hrow, hby, hv⟩)
    exact ⟨hdone.table, hdone.concluded, hdone.outcomes⟩
  | finished hd ho hh hstep => exact h.step_table hs ht hstep rfl
  | @published b payload life hb hp hstep =>
    have hdone := h.step_table hs ht hstep rfl
    have hcre : (w.graph.publish b payload).creations = w.graph.creations := by
      simp [GraphState.publish, updateNodes, creations, JournalEntry.creation?]
    have hout : (w.graph.publish b payload).outcomes = w.graph.outcomes := by
      simp [GraphState.publish, updateNodes, GraphState.outcomes, JournalEntry.outcome?]
    have hrows := steady_write (s := w.graph) (p := fun n => n.key = b.key && n.receipt.isNone)
      (f := recordReceipt payload b.attempt) fun _ => ⟨rfl, rfl⟩
    refine ⟨hdone.table, ?_, ?_⟩
    · apply hdone.concluded.steady hs.valid.nodes
      refine ⟨hrows.rows, ?_, hout⟩
      intro c hc
      rw [hcre] at hc
      exact .inl hc
    · intro k g i o ho
      exact hdone.outcomes k g i o (hout ▸ ho)

end Agreed

/-- Runs in which the tasks of the graph are left in order. -/
abbrev ReachUndisturbed (conf : RetryDefaults) (limit : Nat) : Publishing → Prop :=
  (publishingSystem conf limit).ReachWhen fun w e => w.undisturbed e.1 = true

theorem reach_agreed (h : ReachUndisturbed conf limit w) : w.Agreed := by
  apply h.invariant_of (fun w => w.Sound limit ∧ w.Tied) Agreed
  · exact fun w hw => ⟨reach_sound hw.reach, reach_tied hw.reach⟩
  · rintro w ⟨plan, id, now, graph, hstart, rfl⟩
    obtain ⟨s₀, t, hcheck, hins, ht, hgraph⟩ := start_ok hstart
    have hc := hins.consistent hcheck
    have hgrown := ((moved_dispatchFrontier hc ht).trans (moved_maybeSettle t now)).store
    rw [hins.store, ← hgraph] at hgrown
    refine ⟨?_, start_concluded hstart, ?_⟩
    · have hempty : (lifecycleSystem limit).Reach {} := .init rfl
      exact orderly_adopt (l := {}) hgrown rfl (Lifecycle.reach_distinct hempty)
        (Lifecycle.reach_known hempty)
        ⟨fun t ht => absurd ht List.not_mem_nil, fun x hx => absurd hx List.not_mem_nil⟩
    · intro k g i o ho
      have hsteady := (steady_frontier hc ht).trans (steady_maybeSettle t now)
      have hout := hsteady.outcomes
      rw [← hgraph] at hout
      rw [hout] at ho
      simp [outcomes, hins.journal] at ho
  · rintro w ⟨e, env⟩ w' ⟨hs, ht⟩ ha hok hstep
    exact ha.effect hs ht hok (step_effect hstep)

/-- What an ended task looks like. -/
private theorem Ended.row {o : NodeStatus} {i : TaskId} (h : Ended w.life i o) (ha : w.Agreed)
    (hown : ∀ t, w.life.store.task? i = some t → w.graph.owns t = true) :
    ∃ t, w.life.store.task? i = some t ∧ taskOutcome t.status = some o ∧
      ∀ a ∈ t.attempts, a.success ≠ none := by
  obtain ⟨t, attempt, v, ht, hby, rfl⟩ := h
  obtain ⟨hmem, hid⟩ := TaskStore.task?_eq_some ht
  have hp := (Lifecycle.owned_eq ht).trans (hown t ht)
  have hft := ha.table.firm t hmem (hid ▸ hp)
  exact ⟨t, ht, taskOutcome_verdict (hby.verdict hft.coherent), hby.all hft.coherent⟩

/-- Where the tasks of a graph are left in order, the outcome of a node is that of its task, of which
no attempt is open. So it is for every task that the node had before the one it is bound to: while an
earlier one can still run, the node gets no other. -/
theorem outcomes_agree (h : ReachUndisturbed conf limit w) :
    (∀ n ∈ w.graph.nodes, n.status = .succeeded ∨ n.status = .failed →
      ∃ i t, n.task = some i ∧ w.life.store.task? i = some t ∧ taskOutcome t.status = some n.status ∧
        ∀ a ∈ t.attempts, a.success ≠ none) ∧
    ∀ n ∈ w.graph.nodes, ∀ g i, (n.key, g, i) ∈ w.graph.creations → n.task ≠ some i →
      ∃ t o, w.life.store.task? i = some t ∧ taskOutcome t.status = some o ∧
        ∀ a ∈ t.attempts, a.success ≠ none := by
  have hs := reach_sound h.reach
  have ht := reach_tied h.reach
  have ha := reach_agreed h
  refine ⟨?_, ?_⟩
  · intro n hn hdone
    obtain ⟨i, hi, ho⟩ := hs.journaled.decided n hn hdone
    obtain ⟨t, hrow, hrest⟩ := (ha.outcomes _ _ _ _ ho).row ha fun _ hrow => ht.reported hs ho hrow
    exact ⟨i, t, hi, hrow, hrest⟩
  · intro n hn g i hcre hne
    obtain ⟨m, hm, hmk, hgen⟩ := hs.journaled.created _ _ _ hcre
    obtain rfl := hs.valid.nodes.eq_of_key hm hn hmk
    rcases hgen with hlt | ⟨-, htask⟩
    · obtain ⟨o, ho⟩ := ha.concluded _ _ _ hcre m hn rfl hlt
      obtain ⟨t, hrow, hrest⟩ := (ha.outcomes _ _ _ _ ho).row ha fun _ hrow => ht.reported hs ho hrow
      exact ⟨t, o, hrow, hrest⟩
    · exact absurd htask hne

end

/-- The task of the only node fails, and its node hears of it. -/
def failedLoad : List (PublishEvent × Env) :=
  (.table (.claimAndEnqueue 0 1 0), { now := 1 }) :: workerResult false

/-- The graph is resumed, and the node's second task fails as well. -/
def resumedLoad : List (PublishEvent × Env) := failedLoad ++ [
  (.call (.resume none), { now := 8 }), (.table (.claimAndEnqueue 5 6 8), { now := 9 }),
  (.table (.saveResult { id := 7, success := false, stopped := 10 }), { now := 10 }),
  (.table (.handleResult 1), { now := 11 }), (.completion 0, { now := 12 }), (.finish 0, { now := 13 })]

theorem outcomes_agree_resumed : ∃ w, ReachUndisturbed {} 3 w ∧
    ∃ n ∈ w.graph.nodes, n.status = .failed ∧ n.generation = 2 ∧
      (∃ i t, n.task = some i ∧ w.life.store.task? i = some t ∧ taskOutcome t.status = some n.status ∧
        ∀ a ∈ t.attempts, a.success ≠ none) ∧
      ∃ i, (n.key, 1, i) ∈ w.graph.creations ∧ n.task ≠ some i ∧
        ∃ t o, w.life.store.task? i = some t ∧ taskOutcome t.status = some o ∧
          ∀ a ∈ t.attempts, a.success ≠ none := by
  obtain ⟨w, hw, hp⟩ := exists_reachWhen_of_replay {} 3 loadPlan
    (fun w e => w.undisturbed e.1 = true) resumedLoad
    (fun w => w.graph.nodes.any fun n => n.status = .failed ∧ n.generation = 2 ∧
      (n.key, 1, 0) ∈ w.graph.creations ∧ n.task ≠ some 0) (by decide)
  obtain ⟨n, hn, hp⟩ := List.any_eq_true.mp hp
  obtain ⟨hst, hg, hcre, hne⟩ := of_decide_eq_true hp
  obtain ⟨hsettled, hearlier⟩ := outcomes_agree hw
  exact ⟨w, hw, n, hn, hst, hg, hsettled n hn (.inr hst), 0, hcre, hne, hearlier n hn 1 0 hcre hne⟩

/-- The failed task is requeued from the dead letter queue. -/
def revivedLoad : List (PublishEvent × Env) := failedLoad ++ [
  (.table (.loadInstance 0), { now := 8 }), (.table (.requeueCheck 0), { now := 8 }),
  (.table (.requeueCommit 0), { now := 8 })]

/-- A node stays FAILED while its task waits to run again, and a resume starts another beside it. -/
theorem requeue_revives_settled : ∃ w w', (publishingSystem {} 3).Reach w ∧
    w.step {} 3 { now := 9 } (.call (.resume none)) = some w' ∧
    ∃ n ∈ w.graph.nodes, ∃ n' ∈ w'.graph.nodes, ∃ i t t', n.status = .failed ∧ n.task = some i ∧
      w.life.store.task? i = some t ∧ t.status = .pending ∧ (∃ a ∈ t.attempts, a.success = none) ∧
      n'.key = n.key ∧ n'.status = .running ∧ n'.task ≠ some i ∧
      w'.life.store.task? i = some t' ∧ t'.status = .pending := by
  obtain ⟨w, hw, hp⟩ := exists_reach_of_replay {} 3 loadPlan revivedLoad
    (fun w => (w.step {} 3 { now := 9 } (.call (.resume none))).any fun w' =>
      w.graph.nodes.any fun n => w'.graph.nodes.any fun n' =>
      (w.life.store.task? 0).any fun t => (w'.life.store.task? 0).any fun t' =>
        n.status = .failed ∧ n.task = some 0 ∧ t.status = .pending ∧
          (t.attempts.any fun a => a.success = none) = true ∧ n'.key = n.key ∧ n'.status = .running ∧
          n'.task ≠ some 0 ∧ t'.status = .pending) (by decide)
  obtain ⟨w', hstep, hp⟩ := (Option.any_eq_true _ _).mp hp
  obtain ⟨n, hn, hp⟩ := List.any_eq_true.mp hp
  obtain ⟨n', hn', hp⟩ := List.any_eq_true.mp hp
  obtain ⟨t, ht, hp⟩ := (Option.any_eq_true _ _).mp hp
  obtain ⟨t', ht', hp⟩ := (Option.any_eq_true _ _).mp hp
  obtain ⟨hst, htask, hpending, hopen, hkey, hrun, hne, hpending'⟩ := of_decide_eq_true hp
  obtain ⟨a, ha, hnone⟩ := List.any_eq_true.mp hopen
  exact ⟨w, w', hw, hstep, n, hn, n', hn', 0, t, t', hst, htask, ht, hpending,
    ⟨a, ha, of_decide_eq_true hnone⟩, hkey, hrun, hne, ht', hpending'⟩

end Publishing
end Qraft
