import Qraft.Graphs.Settlement
import Qraft.Publication.System

/-! What a call on the graph makes of its rows, and what each step makes of graph and table. -/
namespace Qraft

structure Receipt where
  key : String
  generation : Nat
  task : TaskId
  attempt : AttemptId
  payload : JsonDict

def JournalEntry.receipt? : JournalEntry → Option Receipt
  | .published key generation task attempt payload => some { key, generation, task, attempt, payload }
  | _ => none

/-- What a transaction makes of a node row: the receipt stays with the generation, and no node
comes to be FAILED. -/
structure Carried (n n' : QraftGraphNode) : Prop where
  key : n'.key = n.key
  generation : n.generation ≤ n'.generation
  same : n'.generation = n.generation → n'.receipt = n.receipt ∧
    n'.receiptAttemptId = n.receiptAttemptId ∧ (n.task ≠ none → n'.task = n.task) ∧
    (n.settledAt ≠ none → n'.settledAt ≠ none)
  renewed : n'.generation ≠ n.generation → n'.receipt = none
  failed : n'.status = .failed → n.status = .failed ∧ n'.generation = n.generation

namespace Carried
variable {n m n' : QraftGraphNode}

theorem refl (n : QraftGraphNode) : Carried n n :=
  ⟨rfl, Nat.le_refl _, fun _ => ⟨rfl, rfl, fun _ => rfl, id⟩, fun h => absurd rfl h, fun h => ⟨h, rfl⟩⟩

theorem trans (h : Carried n m) (h' : Carried m n') : Carried n n' := by
  refine ⟨h'.key.trans h.key, Nat.le_trans h.generation h'.generation, ?_, ?_, ?_⟩
  · intro hg
    have hle := h.generation
    have hle' := h'.generation
    have hm : m.generation = n.generation := by omega
    obtain ⟨hr, ha, ht, hs⟩ := h.same hm
    obtain ⟨hr', ha', ht', hs'⟩ := h'.same (hg.trans hm.symm)
    refine ⟨hr'.trans hr, ha'.trans ha, fun hn => ?_, hs' ∘ hs⟩
    have hm := ht hn
    exact (ht' (hm ▸ hn)).trans hm
  · intro hg
    by_cases hm : n'.generation = m.generation
    · exact (h'.same hm).1.trans (h.renewed fun he => hg (hm.trans he))
    · exact h'.renewed hm
  · intro hf
    obtain ⟨hf, hg⟩ := h'.failed hf
    obtain ⟨hf, hg'⟩ := h.failed hf
    exact ⟨hf, hg.trans hg'⟩

/-- A write to the status of a node that neither decides it nor begins a generation. -/
theorem of_status (hk : n'.key = n.key) (hg : n'.generation = n.generation) (hr : n'.receipt = n.receipt)
    (ha : n'.receiptAttemptId = n.receiptAttemptId) (ht : n.task ≠ none → n'.task = n.task)
    (hs : n.settledAt ≠ none → n'.settledAt ≠ none) (hf : n'.status ≠ .failed) : Carried n n' :=
  ⟨hk, Nat.le_of_eq hg.symm, fun _ => ⟨hr, ha, ht, hs⟩, fun h => absurd hg h, fun h => absurd h hf⟩

theorem settled (h : Carried n n') (hg : n'.generation = n.generation) (hs : n.settledAt ≠ none) :
    n'.settledAt ≠ none := (h.same hg).2.2.2 hs

end Carried

namespace GraphState
open NodeTable

def receipts (s : GraphState) : List Receipt := s.journal.filterMap JournalEntry.receipt?

def Dispatched (g : GraphId) (now : Time) (st : TaskStore) (t : QraftTask) : Prop :=
  ∃ metadata : QraftTask, ∃ cluster, metadata.graphId = some g ∧ metadata.graphNode ≠ none ∧
    { metadata with id := st.nextId, status := .pending, attempts := [] }.scheduleAttempt
      (st.nextId + 1) 1 now cluster now = .ok t

inductive Grown (g : GraphId) (now : Time) (st : TaskStore) : TaskStore → Prop where
  | refl : Grown g now st st
  | dispatch {st' : TaskStore} {t : QraftTask} (h : Grown g now st st') (ht : Dispatched g now st' t) :
      Grown g now st { tasks := st'.tasks ++ [t], nextId := st'.nextId + 2 }

/-- What a transaction does, short of recording an outcome. -/
structure Moved (now : Time) (s s' : GraphState) : Prop where
  id : s'.graph.id = s.graph.id
  rows : ∀ n' ∈ s'.nodes, ∃ n ∈ s.nodes, Carried n n'
  cancelled : s.graph.status = .cancelled → s'.graph.status = .cancelled
  receipts : s'.receipts = s.receipts
  creations : ∃ new, s'.creations = s.creations ++ new ∧ ∀ c ∈ new, s.store.nextId ≤ c.2.2
  store : Grown s.graph.id now s.store s'.store

section
variable {conf : RetryDefaults} {now : Time} {s t s' : GraphState} {e : GraphEvent}

theorem Grown.trans {g : GraphId} {st st' st'' : TaskStore} (h : Grown g now st st')
    (h' : Grown g now st' st'') : Grown g now st st'' := by
  induction h' with
  | refl => exact h
  | dispatch _ ht ih => exact .dispatch ih ht

theorem Grown.nextId {g : GraphId} {st st' : TaskStore} (h : Grown g now st st') :
    st.nextId ≤ st'.nextId := by
  induction h with
  | refl => exact Nat.le_refl _
  | dispatch _ _ ih => exact Nat.le_trans ih (Nat.le_add_right _ 2)

/-- What a transaction adds to the tasks of the graph. -/
theorem Grown.tasks {g : GraphId} {st st' : TaskStore} (h : Grown g now st st') :
    ∃ new, st'.tasks = st.tasks ++ new ∧
      ∀ t ∈ new, t.graphId = some g ∧ t.graphNode ≠ none ∧ t.status = .pending ∧ st.nextId ≤ t.id := by
  induction h with
  | refl => exact ⟨[], (List.append_nil _).symm, fun t ht => absurd ht List.not_mem_nil⟩
  | @dispatch st' t hg ht ih =>
    obtain ⟨new, hnew, hrows⟩ := ih
    refine ⟨new ++ [t], by rw [hnew, List.append_assoc], ?_⟩
    intro u hu
    rcases List.mem_append.mp hu with hu | hu
    · exact hrows u hu
    · obtain ⟨metadata, cluster, hgraph, hnode, hok⟩ := ht
      obtain ⟨-, a, -, -, -, -, -, -, rfl⟩ := QraftTask.scheduleAttempt_ok hok
      rw [List.mem_singleton.mp hu]
      exact ⟨hgraph, hnode, rfl, hg.nextId⟩

/-- Nothing new was created. -/
theorem creations_same (h : s'.creations = s.creations) :
    ∃ new, s'.creations = s.creations ++ new ∧ ∀ c ∈ new, s.store.nextId ≤ c.2.2 :=
  ⟨[], by rw [h, List.append_nil], fun _ hc => absurd hc List.not_mem_nil⟩

theorem Moved.refl (s : GraphState) : Moved now s s :=
  ⟨rfl, fun n hn => ⟨n, hn, .refl n⟩, fun h => h, rfl, creations_same rfl, .refl⟩

theorem Moved.trans (h : Moved now s t) (h' : Moved now t s') : Moved now s s' := by
  refine ⟨h'.id.trans h.id, ?_, h'.cancelled ∘ h.cancelled, h'.receipts.trans h.receipts, ?_,
    h.store.trans (h.id ▸ h'.store)⟩
  · intro n' hn'
    obtain ⟨m, hm, hcm⟩ := h'.rows n' hn'
    obtain ⟨n, hn, hcn⟩ := h.rows m hm
    exact ⟨n, hn, hcn.trans hcm⟩
  · obtain ⟨new, hnew, hids⟩ := h.creations
    obtain ⟨new', hnew', hids'⟩ := h'.creations
    refine ⟨new ++ new', by rw [hnew', hnew, List.append_assoc], ?_⟩
    intro c hc
    rcases List.mem_append.mp hc with hc | hc
    · exact hids c hc
    · exact Nat.le_trans h.store.nextId (hids' c hc)

/-- A write to some node rows. -/
theorem moved_write {p : QraftGraphNode → Bool} {f : QraftGraphNode → QraftGraphNode}
    (h : ∀ n ∈ s.nodes, p n = true → Carried n (f n)) : Moved now s (s.updateNodes p f) := by
  refine ⟨rfl, ?_, id, rfl, creations_same rfl, .refl⟩
  intro n' hn'
  obtain ⟨n, hn, rfl⟩ := Rows.mem_updateWhere.mp hn'
  refine ⟨n, hn, ?_⟩
  split
  · rename_i hp
    exact h n hn hp
  · exact .refl n

/-- Settling changes nothing once a graph is cancelled. -/
theorem settle_cancelled (h : s.graph.status = .cancelled) (status : GraphStatus) (now : Time) :
    s.settle status now = (s, none) := by
  unfold settle
  rw [if_neg]
  rw [h]
  simp

/-- Settling writes neither node rows nor tasks. -/
theorem moved_maybeSettle (s : GraphState) (now : Time) : Moved now s (s.maybeSettle now).1 := by
  refine ⟨(maybeSettle_keeps s now).id, ?_, ?_, ?_, ?_, ?_⟩
  · rw [maybeSettle_nodes]
    exact fun n hn => ⟨n, hn, .refl n⟩
  · intro hc
    unfold maybeSettle
    split
    · exact hc
    · rw [settle_cancelled hc]
      exact hc
    · simp [hc]
    · exact hc
  · exact maybeSettle_filterMap _ (fun _ _ _ => rfl) rfl s now
  · exact creations_same (maybeSettle_filterMap _ (fun _ _ _ => rfl) rfl s now)
  · rw [maybeSettle_store]
    exact .refl

theorem moved_dispatchNode {node : QraftGraphNode} (hc : Consistent s.nodes)
    (h : dispatchNode conf now s node = .ok s') : Moved now s s' := by
  obtain ⟨policy, -, h⟩ := Transaction.bind_eq_ok.mp h
  obtain ⟨task, ht, h⟩ := Transaction.bind_eq_ok.mp h
  cases h
  have hstore : Dispatched s.graph.id now s.store task := by
    refine ⟨nodeTask s.graph node policy s.store.nextId now, _, rfl, ?_, ht⟩
    exact Option.some_ne_none _
  refine ⟨rfl, ?_, id, ?_, ?_, Grown.refl.dispatch hstore⟩
  · intro n' hn'
    obtain ⟨n, hn, rfl⟩ := Rows.mem_updateWhere.mp hn'
    refine ⟨n, hn, ?_⟩
    split
    · rename_i hp
      simp only [Bool.and_eq_true, decide_eq_true_eq] at hp
      have hnone : n.task = none := by
        have hb := (hc.rows n hn).bound
        simpa [hp.2] using hb
      apply Carried.of_status
      · rfl
      · rfl
      · rfl
      · rfl
      · exact fun hne => absurd hnone hne
      · exact id
      · exact fun h => by cases h
    · exact .refl n
  · simp [receipts, JournalEntry.receipt?]
  · refine ⟨[(node.key, node.generation, s.store.nextId)], ?_, ?_⟩
    · simp [creations, JournalEntry.creation?]
    · intro c hc
      rw [List.mem_singleton.mp hc]

theorem moved_dispatchOrPark {node : QraftGraphNode} (hc : Consistent s.nodes)
    (h : dispatchOrPark conf now s node = .ok s') : Moved now s s' := by
  unfold dispatchOrPark at h
  split at h
  · cases h
    apply moved_write
    intro n _ _
    exact .of_status rfl rfl rfl rfl (fun _ => rfl) id fun h => by cases h
  · exact moved_dispatchNode hc h

theorem moved_dispatchFrontier (hc : Consistent s.nodes) (h : dispatchFrontier conf now s = .ok s') :
    Moved now s s' := by
  apply dispatchFrontier_invariant (Moved now s) _ hc (.refl s) h
  intro t node t' hct _ ht hturn
  exact ht.trans (moved_dispatchOrPark hct hturn)

/-- What the completion of a task writes on the node bound to it. -/
def Heard (e : GraphEvent) (n m : QraftGraphNode) : Prop :=
  m = n ∨ ∃ task outcome now, e = .completion task ∧ n.task = some task.id ∧ n.settledAt = none ∧
    taskOutcome task.status = some outcome ∧ m = recordOutcome outcome now n

/-- A call may record an outcome, and moves on from there. -/
theorem call_moved (hv : s.Valid) {r : GraphState × Option QraftGraph} (h : s.call conf now e = .ok r) :
    ∃ s₀ : GraphState, s₀.graph = s.graph ∧ s₀.store = s.store ∧ s₀.receipts = s.receipts ∧
      s₀.creations = s.creations ∧ (∀ m ∈ s₀.nodes, ∃ n ∈ s.nodes, Heard e n m) ∧
      Moved now s₀ r.1 := by
  have plain (hm : Moved now s r.1) : ∃ s₀ : GraphState, s₀.graph = s.graph ∧ s₀.store = s.store ∧
      s₀.receipts = s.receipts ∧ s₀.creations = s.creations ∧
      (∀ m ∈ s₀.nodes, ∃ n ∈ s.nodes, Heard e n m) ∧ Moved now s₀ r.1 :=
    ⟨s, rfl, rfl, rfl, rfl, fun m hm => ⟨m, hm, .inl rfl⟩, hm⟩
  rcases call_cases h with ⟨task, rfl, h⟩ | ⟨key, reason, rfl, h⟩ | ⟨rfl, h⟩ | ⟨key, rfl, -, h⟩ |
    ⟨key, reason, rfl, h⟩ | ⟨nodes, n, rfl, -, h⟩
  · rcases handleNodeCompletion_cases h with
      rfl | ⟨node, outcome, recorded, hn, -, hout, hbound, hopen, hrec, hrest⟩
    · exact plain (.refl s)
    · refine ⟨recorded, ?_, ?_, ?_, ?_, ?_, ?_⟩
      · rw [hrec]
        rfl
      · rw [hrec]
        rfl
      · rw [hrec]
        simp [receipts, JournalEntry.receipt?]
      · rw [hrec]
        simp [creations, JournalEntry.creation?]
      · rw [hrec]
        intro m hm
        obtain ⟨n, hmem, rfl⟩ := Rows.mem_updateWhere.mp hm
        refine ⟨n, hmem, ?_⟩
        split
        · rename_i hp
          simp only [Bool.and_eq_true, decide_eq_true_eq] at hp
          obtain rfl := hv.nodes.eq_of_key hmem hn hp.1
          exact .inr ⟨task, outcome, now, rfl, hbound, hopen, hout, rfl⟩
        · exact .inl rfl
      · rcases hrest with ⟨-, t, ht, rfl⟩ | ⟨-, rfl⟩
        · have hs := (hv.nodes.rows node hn).running_of_open (by simp [hbound]) hopen
          have hc := consistent_recordOutcome hv.nodes hn hs (taskOutcome_cases hout) now
          rw [hrec] at ht ⊢
          exact (moved_dispatchFrontier hc ht).trans (moved_maybeSettle t now)
        · exact .refl recorded
  · apply plain
    obtain ⟨t, -, ht, rfl⟩ := skip_ok h
    have hskip : Moved now s (s.updateNodes (fun n => n.key = key && n.status = .pending)
        (skipNode reason now)) := by
      apply moved_write
      intro n _ _
      exact .of_status rfl rfl rfl rfl (fun _ => rfl) (fun _ => Option.some_ne_none _) fun h => by cases h
    have hfront := moved_dispatchFrontier (consistent_skip hv.nodes key reason now) ht
    exact (hskip.trans hfront).trans (moved_maybeSettle t now)
  · apply plain
    obtain ⟨-, rfl⟩ := cancel_ok h
    refine ⟨(settle_keeps s (.inr (.inr rfl)) now).id, ?_, ?_, ?_, ?_, ?_⟩
    · rw [settle_nodes]
      exact fun n hn => ⟨n, hn, .refl n⟩
    · intro hc
      rw [settle_cancelled hc]
      exact hc
    · exact settle_filterMap _ (fun _ _ _ => rfl) s _ now
    · exact creations_same (settle_filterMap _ (fun _ _ _ => rfl) s _ now)
    · rw [settle_store]
      exact .refl
  · apply plain
    obtain ⟨node, hparked, h⟩ := Transaction.bind_eq_ok.mp h
    obtain ⟨-, hn, rfl, hw⟩ := parkedNode_ok hparked
    obtain ⟨t, ht, h⟩ := Transaction.bind_eq_ok.mp h
    have hrel : Moved now s (s.updateNodes (fun n => n.key = node.key) release) := by
      apply moved_write
      intro n _ _
      exact .of_status rfl rfl rfl rfl (fun _ => rfl) id fun h => by cases h
    have hdone := hrel.trans (moved_dispatchNode (consistent_release hv.nodes hn hw) ht)
    split at h
    · rename_i hwaiting
      rw [← Except.ok.inj h]
      refine ⟨hdone.id, hdone.rows, ?_, hdone.receipts, hdone.creations, hdone.store⟩
      intro hc
      cases hc.symm.trans hwaiting
    · rw [← Except.ok.inj h]
      exact hdone
  · apply plain
    obtain ⟨node, -, hn, rfl, hw, rfl⟩ := reject_ok h
    have hrej : Moved now s (s.updateNodes (fun n => n.key = node.key) (rejectNode reason now)) := by
      apply moved_write
      intro n _ _
      exact .of_status rfl rfl rfl rfl (fun _ => rfl) (fun _ => Option.some_ne_none _) fun h => by cases h
    have hwake : Moved now s { s.updateNodes (fun n => n.key = node.key) (rejectNode reason now) with
        graph := wake s.graph } := by
      refine ⟨hrej.id, hrej.rows, ?_, hrej.receipts, hrej.creations, hrej.store⟩
      intro hc
      simp [wake, hc]
    exact hwake.trans (moved_maybeSettle _ now)
  · apply plain
    obtain ⟨rerun, t, hsettled, hrerun, -, ht, hr⟩ := resume_ok h
    have hfst : r.1 = (t.maybeSettle now).1 := (Prod.mk.inj hr).1
    rw [hfst]
    have hreset : Moved now s (s.updateNodes (fun n => n.key ∈ rerun) resetNode) := by
      apply moved_write
      intro n _ _
      refine ⟨rfl, Nat.le_succ _, ?_, fun _ => rfl, fun h => by cases h⟩
      exact fun hg => absurd hg (Nat.succ_ne_self _)
    have hrew : Moved now s (s.recordSettlement.rewind rerun now) := by
      refine ⟨?_, ?_, ?_, ?_, ?_, ?_⟩
      · rw [rewind, recordSettlement_graph]
      · rw [rewind, recordSettlement_nodes]
        exact hreset.rows
      · intro hc
        rw [hc] at hsettled
        simp at hsettled
      · simp [receipts, rewind]
      · apply creations_same
        simp [creations, rewind]
      · rw [rewind, recordSettlement_store]
        exact .refl
    have hfront := moved_dispatchFrontier (hv.consistent_rewind hrerun now) ht
    exact (hrew.trans hfront).trans (moved_maybeSettle t now)

/-- A receipt changes nothing that the status of a graph is read from. -/
theorem publish_valid (h : s.Valid) (b : Publication) (payload : JsonDict) : (s.publish b payload).Valid := by
  have hstatus : ((s.publish b payload).nodes.map fun n => n.status) = s.nodes.map fun n => n.status :=
    Rows.map_updateWhere (fun n : QraftGraphNode => n.status) fun _ _ _ => rfl
  have hmem (st : NodeStatus) : (∃ n ∈ (s.publish b payload).nodes, n.status = st) ↔
      ∃ n ∈ s.nodes, n.status = st := by
    rw [← List.mem_map, ← List.mem_map, hstatus]
  have hall (P : NodeStatus → Prop) : (∀ n ∈ (s.publish b payload).nodes, P n.status) ↔
      ∀ n ∈ s.nodes, P n.status := by
    rw [← List.forall_mem_map, ← List.forall_mem_map (f := fun n : QraftGraphNode => n.status), hstatus]
  have hdep (d : String) : (s.publish b payload).nodes.depMet d = s.nodes.depMet d := by
    have hpair : ((s.publish b payload).nodes.map fun n => (n.key, n.status)) =
        s.nodes.map fun n => (n.key, n.status) :=
      Rows.map_updateWhere (fun n : QraftGraphNode => (n.key, n.status)) fun _ _ _ => rfl
    have hany := congrArg (List.any · fun x : String × NodeStatus => x.1 = d && decide x.2.Met) hpair
    rw [List.any_map, List.any_map] at hany
    exact hany
  have hc : Consistent (s.publish b payload).nodes := by
    refine h.nodes.updateWhere (f := recordReceipt payload b.attempt) (fun _ => ⟨rfl, rfl⟩) ?_ ?_ ?_
    · intro n hn _
      obtain ⟨hb, ho⟩ := h.nodes.rows n hn
      exact ⟨hb, ho⟩
    · exact fun _ _ _ hm => hm
    · exact fun n hn _ hst => h.nodes.deps n hn hst
  refine ⟨hc, h.settled, ?_, ?_, ?_⟩
  · intro hne
    have hquiet := readyNodes_eq_nil.mp (h.quiet hne)
    refine readyNodes_eq_nil.mpr fun n' hn' hs hd => ?_
    obtain ⟨n, hn, rfl⟩ := Rows.mem_updateWhere.mp hn'
    have hn'' : n.status = .pending ∧ ∀ d ∈ n.after, s.nodes.depMet d = true := by
      simp only [hdep] at hd
      split at hs
      · rename_i hp
        rw [if_pos hp] at hd
        exact ⟨hs, hd⟩
      · rename_i hp
        rw [if_neg hp] at hd
        exact ⟨hs, hd⟩
    exact hquiet n hn hn''.1 hn''.2
  · have hagree := h.status
    show (s.publish b payload).nodes.StatusAgrees s.graph.status
    cases hst : s.graph.status with
    | running =>
      rw [hst] at hagree
      exact (hmem _).mpr hagree
    | waitingApproval =>
      rw [hst] at hagree
      exact ⟨(hmem _).mpr hagree.1,
        (hall fun st => st ≠ .running ∧ st ≠ .failed ∧ st ≠ .cancelled).mpr hagree.2⟩
    | failed =>
      rw [hst] at hagree
      exact ⟨(hmem _).mpr hagree.1, (hall fun st => st ≠ .running).mpr hagree.2⟩
    | succeeded =>
      rw [hst] at hagree
      exact (hall NodeStatus.Met).mpr hagree
    | cancelled => trivial
  · intro hin
    rcases List.mem_append.mp hin with hin | hin
    · exact h.total hin
    · cases List.mem_singleton.mp hin

theorem publish_journaled (h : s.Journaled) (b : Publication) (payload : JsonDict) :
    (s.publish b payload).Journaled := by
  have hwrite : (s.updateNodes (fun n => n.key = b.key && n.receipt.isNone)
      (recordReceipt payload b.attempt)).Journaled := by
    apply h.write
    intro n _ _
    exact ⟨rfl, Nat.le_refl _, fun _ => ⟨rfl, id⟩, fun hne => absurd rfl hne, fun hs => ⟨rfl, rfl⟩⟩
  refine Journaled.congr hwrite rfl rfl ?_ ?_
  · simp [publish, updateNodes, creations, JournalEntry.creation?]
  · simp [publish, updateNodes, outcomes, JournalEntry.outcome?]

theorem publish_receipts (b : Publication) (payload : JsonDict) :
    (s.publish b payload).receipts = s.receipts ++ [{
      key := b.key, generation := b.generation, task := b.task, attempt := b.attempt, payload }] := by
  simp [publish, updateNodes, receipts, JournalEntry.receipt?]

theorem drawFrom_valid (h : s.Valid) (n : Nat) : (s.drawFrom n).Valid :=
  ⟨h.nodes, h.settled, h.quiet, h.status, h.total⟩

theorem drawFrom_journaled (h : s.Journaled) {n : Nat} (hn : s.store.nextId ≤ n) :
    (s.drawFrom n).Journaled :=
  ⟨h.created, h.bound, h.createdOnce, h.tasks, h.taskOnce,
    fun c hc => Nat.lt_of_lt_of_le (h.ids c hc) hn, h.recorded, h.recordedOnce, h.decided⟩

end
end GraphState

namespace Lifecycle
open GraphState

/-- Tasks a graph creates join the table by steps of the table. -/
theorem adopt_invariant {l : Lifecycle} {g : GraphId} {now : Time} {st st' : TaskStore}
    (P : Lifecycle → Prop) (hP : ∀ l l' metadata cluster limit, P l →
      l.step limit { now } (.scheduleTask metadata cluster) = some l' → P l')
    (h : Grown g now st st') (hl : P l) (hn : l.store.nextId = st.nextId) : P (l.adopt st st') := by
  induction h with
  | refl =>
    have he : l.adopt st st = l := by
      unfold adopt
      rw [List.drop_length, List.append_nil, ← hn]
    rw [he]
    exact hl
  | @dispatch st' t hg ht ih =>
    obtain ⟨metadata, cluster, -, -, hok⟩ := ht
    obtain ⟨new, hnew, -⟩ := hg.tasks
    have hdrop : (st'.tasks ++ [t]).drop st.tasks.length = st'.tasks.drop st.tasks.length ++ [t] := by
      rw [hnew, List.append_assoc, List.drop_left, List.drop_left]
    have hstep : (l.adopt st st').step 0 { now } (.scheduleTask metadata cluster) =
        some (l.adopt st { tasks := st'.tasks ++ [t], nextId := st'.nextId + 2 }) := by
      simp only [Lifecycle.step, adopt, hdrop]
      rw [hok]
      simp [Except.toOption]
    exact hP _ _ metadata cluster 0 ih hstep

theorem reach_adopt {limit : Nat} {l : Lifecycle} {g : GraphId} {now : Time} {st st' : TaskStore}
    (h : Grown g now st st') (hl : (lifecycleSystem limit).Reach l) (hn : l.store.nextId = st.nextId) :
    (lifecycleSystem limit).Reach (l.adopt st st') := by
  apply adopt_invariant (lifecycleSystem limit).Reach _ h hl hn
  intro l l' metadata cluster _ hr hstep
  exact .step (e := (.scheduleTask metadata cluster, { now })) hr trivial hstep

theorem reach_heed {limit : Nat} {l : Lifecycle} (hl : (lifecycleSystem limit).Reach l) (g : QraftGraph) :
    (lifecycleSystem limit).Reach (l.heed g) := by
  unfold heed
  split
  · exact .step (e := (.cancelWorkflow (.graph g.id), { now := 0 })) hl trivial rfl
  · exact hl

theorem heed_store (l : Lifecycle) (g : QraftGraph) : (l.heed g).store = l.store := by
  unfold heed
  split
  · rfl
  · rfl

end Lifecycle

namespace Publishing
open GraphState

inductive PublishEffect (conf : RetryDefaults) (limit : Nat) (w : Publishing) (env : Env) :
    PublishEvent → Publishing → Prop where
  /-- A refused `publish()`, one outside the graph, or a second `succeed()`. -/
  | quiet {e : PublishEvent} (he : e ≠ .leave) : PublishEffect conf limit w env e w
  | table {e : LifecycleEvent} {life : Lifecycle} (hf : w.foreign e = true)
      (h : w.life.step limit env e = some life) : PublishEffect conf limit w env (.table e) { w with life }
  | called {e : GraphEvent} {w' : Publishing} (he : ∀ task, e ≠ .completion task) (hb : w.block = none)
      (h : w.call conf env.now e = .ok w') : PublishEffect conf limit w env (.call e) w'
  | completed {i : Nat} {held : QraftTask} {attempt : AttemptId} {w' : Publishing}
      (hd : w.life.due[i]? = some (held, attempt)) (hb : w.block = none) (ho : w.graph.owns held = true)
      (h : w.call conf env.now (.completion held) = .ok w') :
      PublishEffect conf limit w env (.completion i)
        { w' with heard := w'.heard ++ [(held.id, attempt, held.status)] }
  | finished {i : Nat} {held : QraftTask} {attempt : AttemptId} {life : Lifecycle}
      (hd : w.life.due[i]? = some (held, attempt)) (ho : w.graph.owns held = true)
      (hh : (held.id, attempt, held.status) ∈ w.heard) (h : w.life.step limit env (.route i) = some life) :
      PublishEffect conf limit w env (.finish i) { w with life }
  | opened {t : QraftTask} {a : QraftTaskAttempt} {n : QraftGraphNode} (ht : w.life.store.task? t.id = some t)
      (ho : w.graph.owns t = true) (ha : a ∈ t.attempts) (hn : n ∈ w.graph.nodes) (hb : w.block = none)
      (hbound : n.task = some t.id) (hr : n.receipt = none) : PublishEffect conf limit w env (.openBlock t.id a.id)
        { w with block := some { key := n.key, generation := n.generation, task := t.id, attempt := a.id } }
  | noted {payload : Option JsonDict} {b : Publication} (hb : w.block = some b) (p : JsonDict) :
      PublishEffect conf limit w env (.succeed payload) { w with block := some { b with payload := some p } }
  /-- The body raised, or did not call `succeed()`. -/
  | closed {e : PublishEvent} (he : e = .abort ∨ e = .leave ∧ ∃ b, w.block = some b ∧ b.payload = none) :
      PublishEffect conf limit w env e { w with block := none }
  | published {b : Publication} {payload : JsonDict} {life : Lifecycle} (hb : w.block = some b)
      (hp : b.payload = some payload) (h : w.life.step limit env (.commitOutput b.task b.attempt) = some life) :
      PublishEffect conf limit w env .leave
        { w with life, graph := w.graph.publish b payload, block := none }

section
variable {conf : RetryDefaults} {limit : Nat} {w w' : Publishing} {env : Env} {e : PublishEvent}

theorem checkAuthority_ok {n : QraftGraphNode} {graph : GraphId} {task : TaskId}
    (h : n.checkAuthority graph task = .ok ()) : n.task = some task ∧ n.receipt = none := by
  unfold QraftGraphNode.checkAuthority at h
  split at h
  · cases h
  · rename_i hb
    split at h
    · cases h
    · rename_i hr
      exact ⟨not_not.mp hb, Option.not_isSome_iff_eq_none.mp hr⟩

private theorem enter_effect {t : QraftTask} {a : QraftTaskAttempt} (ht : w.life.store.task? t.id = some t)
    (ha : a ∈ t.attempts) (hb : w.block = none) (h : w.enter t a.id = some w') :
    PublishEffect conf limit w env (.openBlock t.id a.id) w' := by
  have quiet : PublishEffect conf limit w env (.openBlock t.id a.id) w := .quiet fun he => by cases he
  unfold enter at h
  split at h
  · rename_i ho
    obtain ⟨n, hn, h⟩ := Option.map_eq_some_iff.mp h
    obtain ⟨key, -, hn⟩ := Option.bind_eq_some_iff.mp hn
    split at h
    · rw [← h]
      exact quiet
    · rename_i hok
      obtain ⟨hbound, hr⟩ := checkAuthority_ok hok
      rw [← h]
      exact .opened ht ho ha (NodeTable.node?_eq_some hn).1 hb hbound hr
  · cases h
    exact quiet

theorem step_effect (h : w.step conf limit env e = some w') : PublishEffect conf limit w env e w' := by
  cases e with
  | table e =>
    simp only [step] at h
    split at h
    · rename_i hf
      obtain ⟨life, hl, rfl⟩ := Option.map_eq_some_iff.mp h
      exact .table hf hl
    · cases h
  | call e =>
    have called (he : ∀ task, e ≠ .completion task)
        (h : (if w.block.isNone then (w.call conf env.now e).toOption else none) = some w') :
        PublishEffect conf limit w env (.call e) w' := by
      split at h
      · rename_i hb
        exact .called he (Option.isNone_iff_eq_none.mp hb) (Transaction.toOption_eq_some.mp h)
      · cases h
    cases e with
    | completion task => cases h
    | skip key reason => exact called (fun _ he => by cases he) h
    | cancel => exact called (fun _ he => by cases he) h
    | approve key => exact called (fun _ he => by cases he) h
    | reject key reason => exact called (fun _ he => by cases he) h
    | resume nodes => exact called (fun _ he => by cases he) h
  | completion i =>
    obtain ⟨⟨held, attempt⟩, hd, h⟩ := Option.bind_eq_some_iff.mp h
    simp only at h
    split at h
    · rename_i hcond
      obtain ⟨w', hw, rfl⟩ := Option.map_eq_some_iff.mp h
      exact .completed hd (Option.isNone_iff_eq_none.mp hcond.1) hcond.2 (Transaction.toOption_eq_some.mp hw)
    · cases h
  | finish i =>
    obtain ⟨⟨held, attempt⟩, hd, h⟩ := Option.bind_eq_some_iff.mp h
    simp only at h
    split at h
    · rename_i hcond
      obtain ⟨life, hl, rfl⟩ := Option.map_eq_some_iff.mp h
      exact .finished hd hcond.1 hcond.2 hl
    · cases h
  | openBlock task attempt =>
    obtain ⟨⟨t, a⟩, hf, hrest⟩ := Option.bind_eq_some_iff.mp h
    obtain ⟨u, hu, ha⟩ := Option.bind_eq_some_iff.mp hf
    obtain ⟨b, hb, hpair⟩ := Option.map_eq_some_iff.mp ha
    cases hpair
    obtain ⟨hmem, rfl⟩ := Rows.get?_eq_some hb
    obtain ⟨-, rfl⟩ := TaskStore.task?_eq_some hu
    simp only at hrest
    split at hrest
    · rename_i hnone
      exact enter_effect hu hmem (Option.isNone_iff_eq_none.mp hnone) hrest
    · cases hrest
  | succeed payload =>
    obtain ⟨b, hb, h⟩ := Option.map_eq_some_iff.mp h
    split at h
    · cases h
      exact .quiet fun he => by cases he
    · rename_i b' hok
      rw [← h]
      unfold Publication.succeed at hok
      split at hok
      · cases hok
      · cases hok
        exact .noted hb _
  | leave =>
    obtain ⟨b, hb, h⟩ := Option.bind_eq_some_iff.mp h
    split at h
    · rename_i hrec
      cases h
      refine .closed (.inr ⟨rfl, b, hb, ?_⟩)
      cases hp : b.payload with
      | none => rfl
      | some p =>
        rw [Publication.recorded, hp] at hrec
        cases hrec
    · rename_i payload hrec
      obtain ⟨life, hl, rfl⟩ := Option.map_eq_some_iff.mp h
      refine .published hb ?_ hl
      cases hp : b.payload with
      | none =>
        rw [Publication.recorded, hp] at hrec
        cases hrec
      | some p =>
        rw [Publication.recorded, hp] at hrec
        cases hrec
        rfl
  | abort =>
    obtain ⟨b, -, rfl⟩ := Option.map_eq_some_iff.mp h
    exact .closed (.inl rfl)

/-- A call of the graph, in terms of the graph alone. -/
theorem call_ok {e : GraphEvent} {now : Time} (h : w.call conf now e = .ok w') :
    ∃ r, (w.graph.drawFrom w.life.store.nextId).call conf now e = .ok r ∧ w'.graph = r.1 ∧
      w'.life = (w.life.adopt w.graph.store r.1.store).heed r.1.graph ∧ w'.block = w.block ∧
      w'.heard = w.heard := by
  obtain ⟨r, hr, h⟩ := Transaction.bind_eq_ok.mp h
  obtain rfl := Except.ok.inj h
  exact ⟨r, hr, rfl, rfl, rfl, rfl⟩

structure Sound (limit : Nat) (w : Publishing) : Prop where
  life : (lifecycleSystem limit).Reach w.life
  valid : w.graph.Valid
  journaled : w.graph.Journaled
  ids : w.graph.store.nextId ≤ w.life.store.nextId

end
end Publishing
end Qraft
