import Qraft.Publication.Routing

/-! Whether a receipt decides its node: so long as no failure of its task is made final after it, the
node does not fail, and once the task is routed the node has succeeded. -/
namespace Qraft

namespace GraphState
open NodeTable
variable {conf : RetryDefaults} {now : Time} {s : GraphState} {e : GraphEvent}

/-- A task that was there before a call is bound after it only where it was bound before. -/
theorem call_bound (hv : s.Valid) (hj : s.Journaled) {r : GraphState × Option QraftGraph}
    (h : s.call conf now e = .ok r) {n' : QraftGraphNode} (hn' : n' ∈ r.1.nodes) {t : TaskId}
    (ht : n'.task = some t) : s.store.nextId ≤ t ∨ ∃ n ∈ s.nodes, ∃ m, Heard e n m ∧ Carried m n' ∧
      n'.key = n.key ∧ n'.generation = n.generation ∧ n.task = some t := by
  have hbound := (call_journaled hv hj h).bound n' hn' t ht
  obtain ⟨s₀, -, hstore, -, hcre, hheard, hmoved⟩ := call_moved hv h
  obtain ⟨new, hnew, hids⟩ := hmoved.creations
  rw [hnew, hcre] at hbound
  rcases List.mem_append.mp hbound with hold | hcreated
  · obtain ⟨k, hk, hkey, hgen⟩ := hj.created _ _ _ hold
    obtain ⟨m, hm, hc⟩ := hmoved.rows n' hn'
    obtain ⟨n, hn, hh⟩ := hheard m hm
    obtain ⟨hmk, hmg, -⟩ := hh.columns
    have hnk : n'.key = n.key := hc.key.trans hmk
    obtain rfl := hv.nodes.eq_of_key hk hn (hkey.trans hnk)
    have hle : k.generation ≤ n'.generation := hmg ▸ hc.generation
    rcases hgen with hlt | ⟨hg, htask⟩
    · exact absurd hle (Nat.not_le.mpr hlt)
    · exact .inr ⟨k, hn, m, hh, hc, hnk, hg, htask⟩
  · rw [← hstore]
    exact .inl (hids _ hcreated)

theorem node?_of_mem (hv : s.Valid) {n : QraftGraphNode} (hn : n ∈ s.nodes) :
    s.nodes.node? n.key = some n := Rows.get?_of_mem hv.nodes.nodup hn

theorem Heard.settled {n m : QraftGraphNode} (h : Heard e n m) (hs : n.settledAt ≠ none) :
    m.settledAt ≠ none := by
  rcases h with rfl | ⟨task, outcome, now, -, -, hopen, -⟩
  · exact hs
  · exact absurd hopen hs

/-- The completion of a decided task settles the node that is bound to it. -/
theorem completion_settles (hv : s.Valid) {task : QraftTask} {r : GraphState × Option QraftGraph}
    (h : s.handleNodeCompletion conf task now = .ok r) {n : QraftGraphNode} (hn : n ∈ s.nodes)
    (hk : task.graphNode = some n.key) (ht : n.task = some task.id) (hterm : task.status.Terminal) :
    ∀ n' ∈ r.1.nodes, n'.key = n.key → n'.generation = n.generation → n'.settledAt ≠ none := by
  intro n' hn' hkey hgen
  have carried {q : GraphState} (hq : Moved now q r.1)
      (hrow : ∀ m ∈ q.nodes, m.key = n.key → m.generation = n.generation → m.settledAt ≠ none)
      (hgens : ∀ m ∈ q.nodes, m.key = n.key → m.generation = n.generation) : n'.settledAt ≠ none := by
    obtain ⟨m, hm, hc⟩ := hq.rows n' hn'
    have hmk : m.key = n.key := hc.key.symm.trans hkey
    have hmg := hgens m hm hmk
    exact hc.settled (hgen.trans hmg.symm) (hrow m hm hmk hmg)
  have hsame : ∀ m ∈ s.nodes, m.key = n.key → m = n := fun m hm hmk => hv.nodes.eq_of_key hm hn hmk
  by_cases hopen : n.settledAt = none
  · obtain ⟨outcome, hout⟩ : ∃ outcome, taskOutcome task.status = some outcome := by
      rcases hterm with hs | hs | hs
      · exact ⟨.succeeded, by rw [hs]; rfl⟩
      · exact ⟨.failed, by rw [hs]; rfl⟩
      · exact ⟨.failed, by rw [hs]; rfl⟩
    have hbranch : ¬ (n.task ≠ some task.id ∨ n.settledAt ≠ none) := by
      rw [ht, hopen]
      simp
    simp only [handleNodeCompletion, hk, hout, node?_of_mem hv hn, if_neg hbranch] at h
    generalize hrec : ({ s.updateNodes (fun m => m.key = n.key && m.settledAt = none)
        (recordOutcome outcome now) with
      journal := s.journal ++ [.outcomeRecorded n.key n.generation task.id outcome] } :
      GraphState) = recorded at h
    have hnodes : recorded.nodes = Rows.updateWhere (fun m => m.key = n.key && m.settledAt = none)
        (recordOutcome outcome now) s.nodes := by
      rw [← hrec]
      rfl
    have hrow : ∀ m ∈ recorded.nodes, m.key = n.key → m = recordOutcome outcome now n := by
      intro m hm hmk
      rw [hnodes] at hm
      obtain ⟨m₀, hm₀, rfl⟩ := Rows.mem_updateWhere.mp hm
      have hkey₀ : m₀.key = n.key := by
        split at hmk
        · exact hmk
        · exact hmk
      obtain rfl := hsame m₀ hm₀ hkey₀
      simp [hopen]
    have hset : ∀ m ∈ recorded.nodes, m.key = n.key → m.generation = n.generation → m.settledAt ≠ none := by
      intro m hm hmk _
      rw [hrow m hm hmk]
      exact Option.some_ne_none _
    have hgens : ∀ m ∈ recorded.nodes, m.key = n.key → m.generation = n.generation := by
      intro m hm hmk
      rw [hrow m hm hmk]
      rfl
    split at h
    · obtain ⟨t, hfront, hr⟩ := Transaction.bind_eq_ok.mp h
      have hs := (hv.nodes.rows n hn).running_of_open (by rw [ht]; exact Option.some_ne_none _) hopen
      have hc : Consistent recorded.nodes := by
        rw [hnodes]
        exact consistent_recordOutcome hv.nodes hn hs (taskOutcome_cases hout) now
      have hmoved := (moved_dispatchFrontier hc hfront).trans (moved_maybeSettle t now)
      have hr : t.maybeSettle now = r := Except.ok.inj hr
      rw [hr] at hmoved
      exact carried hmoved hset hgens
    · cases h
      exact hset n' hn' hkey hgen
  · obtain ⟨s₀, -, -, -, -, hheard, hmoved⟩ := call_moved (e := .completion task) hv h
    apply carried hmoved
    · intro m hm hmk _
      obtain ⟨m₀, hm₀, hh⟩ := hheard m hm
      obtain rfl := hsame m₀ hm₀ (hh.columns.1.symm.trans hmk)
      exact hh.settled hopen
    · intro m hm hmk
      obtain ⟨m₀, hm₀, hh⟩ := hheard m hm
      obtain rfl := hsame m₀ hm₀ (hh.columns.1.symm.trans hmk)
      exact hh.columns.2.1

end GraphState

namespace Publishing
open GraphState

/-- What rows, processes and handled completions have to do with the nodes. -/
structure Tied (w : Publishing) : Prop where
  rows : ∀ u ∈ w.graph.store.tasks, ∀ t, w.life.store.task? u.id = some t →
    w.graph.owns t = true ∧ t.graphNode = u.graphNode
  due : ∀ x ∈ w.life.due, ∃ t, w.life.store.task? x.1.id = some t ∧
    x.1.graphId = t.graphId ∧ x.1.graphNode = t.graphNode
  known : ∀ y ∈ w.heard, y.1 < w.life.store.nextId
  /-- A node that heard of an outcome of its task is settled. -/
  heard : ∀ y ∈ w.heard, y.2.2.Terminal → ∀ n ∈ w.graph.nodes, n.task = some y.1 → n.settledAt ≠ none

section
variable {conf : RetryDefaults} {limit : Nat} {w w' : Publishing} {env : Env}

/-- The task of a node, among those the graph created. -/
theorem Sound.created (hs : w.Sound limit) {n : QraftGraphNode} (hn : n ∈ w.graph.nodes) {task : TaskId}
    (ht : n.task = some task) : ∃ u ∈ w.graph.store.tasks, u.id = task ∧ u.graphNode = some n.key := by
  have hbound := hs.journaled.bound n hn task ht
  have hpair := List.mem_map_of_mem (f := fun c : String × Nat × TaskId => (some c.1, c.2.2)) hbound
  rw [← hs.journaled.tasks] at hpair
  obtain ⟨u, hu, he⟩ := List.mem_map.mp hpair
  obtain ⟨hk, hid⟩ := Prod.mk.inj he
  exact ⟨u, hu, hid, hk⟩

theorem Sound.lt (hs : w.Sound limit) {u : QraftTask} (hu : u ∈ w.graph.store.tasks) :
    u.id < w.life.store.nextId := by
  have hpair := List.mem_map_of_mem (f := fun t : QraftTask => (t.graphNode, t.id)) hu
  rw [hs.journaled.tasks] at hpair
  obtain ⟨c, hc, he⟩ := List.mem_map.mp hpair
  have hlt := hs.journaled.ids c hc
  rw [(Prod.mk.inj he).2] at hlt
  exact Nat.lt_of_lt_of_le hlt hs.ids

/-- The tasks a call adds to graph and table. -/
theorem call_adds {e : GraphEvent} {now : Time} (hs : w.Sound limit)
    (hcall : w.call conf now e = .ok w') :
    ∃ new, w'.graph.store.tasks = w.graph.store.tasks ++ new ∧
      w'.life.store.tasks = w.life.store.tasks ++ new ∧ w'.life.due = w.life.due ∧
      w.life.store.nextId ≤ w'.life.store.nextId ∧
      ∀ t ∈ new, t.graphId = some w.graph.graph.id ∧ t.graphNode ≠ none ∧ t.status = .pending ∧
        w.life.store.nextId ≤ t.id := by
  obtain ⟨r, hr, hgraph, hlife, -, -⟩ := call_ok hcall
  have hv := drawFrom_valid hs.valid w.life.store.nextId
  obtain ⟨s₀, hg₀, hstore₀, -, -, -, hmoved⟩ := call_moved hv hr
  have hgrown := hmoved.store
  rw [hstore₀, hg₀] at hgrown
  obtain ⟨new, hnew, hrows⟩ := hgrown.tasks
  refine ⟨new, by rw [hgraph]; exact hnew, ?_, ?_, ?_, hrows⟩
  · rw [hlife, Lifecycle.heed_store]
    show w.life.store.tasks ++ r.1.store.tasks.drop w.graph.store.tasks.length = _
    rw [hnew]
    exact congrArg (w.life.store.tasks ++ ·) List.drop_left
  · rw [hlife]
    unfold Lifecycle.heed
    split
    · rfl
    · rfl
  · rw [hlife, Lifecycle.heed_store]
    exact hgrown.nextId

/-- A row after a call is an old one, or one the call added. -/
theorem call_row (hs : w.Sound limit) {new : List QraftTask}
    (htasks : w'.life.store.tasks = w.life.store.tasks ++ new) {i : TaskId} {t : QraftTask}
    (ht : w'.life.store.task? i = some t) : w.life.store.task? i = some t ∨ t ∈ new := by
  obtain ⟨hmem, rfl⟩ := TaskStore.task?_eq_some ht
  rw [htasks] at hmem
  rcases List.mem_append.mp hmem with hmem | hmem
  · exact .inl (hs.distinct.task?_of_mem hmem)
  · exact .inr hmem

namespace Tied

/-- The row of the task a node is bound to. -/
theorem row (h : w.Tied) (hs : w.Sound limit) {n : QraftGraphNode} (hn : n ∈ w.graph.nodes)
    {t : QraftTask} (ht : n.task = some t.id) (hrow : w.life.store.task? t.id = some t) :
    w.graph.owns t = true ∧ t.graphNode = some n.key := by
  obtain ⟨u, hu, hid, hk⟩ := hs.created hn ht
  rw [← hid] at hrow
  obtain ⟨ho, hnode⟩ := h.rows u hu t hrow
  exact ⟨ho, hnode.trans hk⟩

/-- What a process holds of such a task. -/
theorem held (h : w.Tied) (hs : w.Sound limit) {n : QraftGraphNode} (hn : n ∈ w.graph.nodes)
    {x : QraftTask × AttemptId} (hx : x ∈ w.life.due) (ht : n.task = some x.1.id) :
    w.graph.owns x.1 = true ∧ x.1.graphNode = some n.key := by
  obtain ⟨t, hrow, hg, hk⟩ := h.due x hx
  have hid := (TaskStore.task?_eq_some hrow).2
  rw [← hid] at ht hrow
  obtain ⟨ho, hnode⟩ := h.row hs hn ht hrow
  exact ⟨(Lifecycle.owns_congr hg hk).trans ho, hk.trans hnode⟩

private theorem table {e : LifecycleEvent} {life : Lifecycle} (h : w.Tied) (hs : w.Sound limit)
    (hstep : w.life.step limit env e = some life) : ({ w with life } : Publishing).Tied := by
  have hd := hs.distinct
  -- Rows of tasks that the graph created were there before.
  have before {u t' : QraftTask} (hu : u ∈ w.graph.store.tasks) (ht' : life.store.task? u.id = some t') :
      ∃ t, w.life.store.task? u.id = some t ∧ Lifecycle.TaskEffect limit w.life env e t t' := by
    obtain ⟨hmem, hid⟩ := TaskStore.task?_eq_some ht'
    rcases Lifecycle.step_origin hd hstep hmem with hold | ⟨metadata, cluster, trace, -, hnew⟩ |
      ⟨metadata, cluster, -, hok⟩
    · rw [← hid]
      exact hold
    · rw [hnew] at hid
      exact absurd (hs.lt hu) (Nat.not_lt.mpr (Nat.le_of_eq hid))
    · obtain ⟨-, a, -, -, -, -, -, -, hnew⟩ := QraftTask.scheduleAttempt_ok hok
      rw [hnew] at hid
      exact absurd (hs.lt hu) (Nat.not_lt.mpr (Nat.le_of_eq hid))
  refine ⟨?_, ?_, ?_, h.heard⟩
  · intro u hu t' ht'
    obtain ⟨t, ht, heff⟩ := before hu ht'
    obtain ⟨-, hg, hn⟩ := heff.node
    obtain ⟨ho, hk⟩ := h.rows u hu t ht
    exact ⟨(Lifecycle.owns_congr hg hn).trans ho, hn.trans hk⟩
  · intro x hx
    rcases Lifecycle.step_due hd hstep hx with hx | ⟨a, hfind, hstore, -⟩ | ⟨t, number, -, hfind, -⟩
    · obtain ⟨t, ht, hg, hk⟩ := h.due x hx
      obtain ⟨t', ht', heff⟩ := Lifecycle.step_task hd hstep ht
      obtain ⟨-, hg', hk'⟩ := heff.node
      exact ⟨t', ht', hg.trans hg'.symm, hk.trans hk'.symm⟩
    · refine ⟨x.1, ?_, rfl, rfl⟩
      show life.store.task? x.1.id = some x.1
      rw [hstore]
      exact hfind
    · exact ⟨x.1, hfind, rfl, rfl⟩
  · intro y hy
    exact Nat.lt_of_lt_of_le (h.known y hy) (Lifecycle.step_nextId hstep)

private theorem call {e : GraphEvent} {now : Time} (h : w.Tied) (hs : w.Sound limit)
    (hcall : w.call conf now e = .ok w') : w'.Tied := by
  obtain ⟨r, hr, hgraph, -, -, hheard'⟩ := call_ok hcall
  have hs' := hs.call hcall
  have hv := drawFrom_valid hs.valid w.life.store.nextId
  have hj := drawFrom_journaled hs.journaled hs.ids
  obtain ⟨new, hnew, htasks, hdue, hnext, hrows⟩ := call_adds hs hcall
  rw [hgraph] at hnew
  have hid : r.1.graph.id = w.graph.graph.id := by
    obtain ⟨s₀, hg₀, -, -, -, -, hmoved⟩ := call_moved hv hr
    exact hmoved.id.trans (congrArg QraftGraph.id hg₀)
  have kept {i : TaskId} {t : QraftTask} (ht : w.life.store.task? i = some t) :
      w'.life.store.task? i = some t := by
    unfold TaskStore.task?
    rw [htasks]
    exact Rows.get?_append ht new
  have origin {t : QraftTask} (ht : w'.life.store.task? t.id = some t) :
      w.life.store.task? t.id = some t ∨ t ∈ new ∧ w.life.store.nextId ≤ t.id := by
    rcases call_row hs htasks ht with hold | hmem
    · exact .inl hold
    · exact .inr ⟨hmem, (hrows t hmem).2.2.2⟩
  refine ⟨?_, ?_, ?_, ?_⟩
  · intro u hu t ht
    rw [hgraph] at hu ⊢
    have hu : u ∈ w.graph.store.tasks ++ new := hnew ▸ hu
    have hsame := (TaskStore.task?_eq_some ht).2
    have ho : r.1.owns t = w.graph.owns t := by rw [Lifecycle.owns_eq hid]
    rw [ho]
    rcases List.mem_append.mp hu with hu | hu
    · rw [← hsame] at ht
      rcases origin ht with hold | ⟨-, hge⟩
      · exact h.rows u hu t (hsame ▸ hold)
      · exact absurd (hsame ▸ hs.lt hu) (Nat.not_lt.mpr hge)
    · have hmem : u ∈ w'.life.store.tasks := by
        rw [htasks]
        exact List.mem_append_right _ hu
      have hrow := hs'.distinct.task?_of_mem hmem
      rw [ht] at hrow
      obtain rfl := Option.some.inj hrow
      obtain ⟨hgid, hnode, -, -⟩ := hrows t hu
      refine ⟨?_, rfl⟩
      simp [GraphState.owns, hgid, Option.isSome_iff_ne_none, hnode]
  · intro x hx
    rw [hdue] at hx
    obtain ⟨t, ht, hcols⟩ := h.due x hx
    exact ⟨t, kept ht, hcols⟩
  · intro y hy
    rw [hheard'] at hy
    exact Nat.lt_of_lt_of_le (h.known y hy) hnext
  · intro y hy hterm n' hn' ht'
    rw [hheard'] at hy
    rw [hgraph] at hn'
    rcases call_bound hv hj hr hn' ht' with hge | ⟨n, hn, m, hh, hc, -, hg, ht⟩
    · exact absurd (h.known y hy) (Nat.not_lt.mpr hge)
    · have hm := hh.settled (h.heard y hy hterm n hn ht)
      exact hc.settled (hg.trans hh.columns.2.1.symm) hm

theorem effect {e : PublishEvent} (h : w.Tied) (hs : w.Sound limit)
    (heff : PublishEffect conf limit w env e w') : w'.Tied := by
  cases heff with
  | quiet | opened | noted | closed => exact ⟨h.rows, h.due, h.known, h.heard⟩
  | table hf hstep => exact h.table hs hstep
  | called he hb hcall => exact h.call hs hcall
  | @completed i held attempt w' hd hb ho hcall =>
    have hdone := h.call hs hcall
    have hx := List.mem_of_getElem? hd
    refine ⟨hdone.rows, hdone.due, ?_, ?_⟩
    · intro y hy
      rcases List.mem_append.mp hy with hy | hy
      · exact hdone.known y hy
      · rw [List.mem_singleton.mp hy]
        obtain ⟨new, -, -, hdue, -⟩ := call_adds hs hcall
        obtain ⟨t, hrow, -⟩ := hdone.due (held, attempt) (hdue ▸ hx)
        obtain ⟨hmem, hid⟩ := TaskStore.task?_eq_some hrow
        have hid : t.id = held.id := hid
        rw [← hid]
        exact (((hs.call hcall).distinct).bound t hmem).1
    · intro y hy hterm n' hn' ht'
      rcases List.mem_append.mp hy with hy | hy
      · exact hdone.heard y hy hterm n' hn' ht'
      · obtain rfl := List.mem_singleton.mp hy
        obtain ⟨r, hr, hgraph, -⟩ := call_ok hcall
        have hv := drawFrom_valid hs.valid w.life.store.nextId
        have hj := drawFrom_journaled hs.journaled hs.ids
        have hn' : n' ∈ r.1.nodes := hgraph ▸ hn'
        rcases call_bound hv hj hr hn' ht' with hge | ⟨n, hn, m, hh, hc, hk, hg, ht⟩
        · obtain ⟨t, hrow, -⟩ := h.due (held, attempt) hx
          obtain ⟨hmem, hid⟩ := TaskStore.task?_eq_some hrow
          have hid : t.id = held.id := hid
          have hlt := (hs.distinct.bound t hmem).1
          rw [hid] at hlt
          exact absurd hlt (Nat.not_lt.mpr hge)
        · obtain ⟨-, hkey⟩ := h.held hs hn hx ht
          exact completion_settles hv hr hn hkey ht hterm n' hn' hk hg
  | finished hd ho hh hstep => exact h.table hs hstep
  | @published b payload life hb hp hstep =>
    have hdone := h.table hs hstep
    have hcols : ∀ n' ∈ (w.graph.publish b payload).nodes, ∃ n ∈ w.graph.nodes,
        n'.task = n.task ∧ n'.settledAt = n.settledAt := by
      intro n' hn'
      obtain ⟨n, hn, rfl⟩ := Rows.mem_updateWhere.mp hn'
      refine ⟨n, hn, ?_⟩
      split
      · exact ⟨rfl, rfl⟩
      · exact ⟨rfl, rfl⟩
    refine ⟨hdone.rows, hdone.due, hdone.known, ?_⟩
    intro y hy hterm n' hn' ht'
    obtain ⟨n, hn, ht, hset⟩ := hcols n' hn'
    rw [hset]
    exact hdone.heard y hy hterm n hn (ht ▸ ht')

end Tied

theorem reach_tied (h : (publishingSystem conf limit).Reach w) : w.Tied := by
  apply h.invariant_of (fun w => w.Sound limit) Tied
  · exact fun w hw => reach_sound hw
  · rintro w ⟨plan, id, now, graph, hstart, rfl⟩
    obtain ⟨s₀, t, hcheck, hins, ht, rfl⟩ := start_ok hstart
    have hmoved := (moved_dispatchFrontier (hins.consistent hcheck) ht).trans (moved_maybeSettle t now)
    have hgrown := hmoved.store
    rw [hins.store] at hgrown
    obtain ⟨new, hnew, hrows⟩ := hgrown.tasks
    rw [List.nil_append] at hnew
    have hreach : (publishingSystem conf limit).Reach
        { life := { store := (t.maybeSettle now).1.store }, graph := (t.maybeSettle now).1 } :=
      .init ⟨plan, id, now, _, hstart, rfl⟩
    have hd := (reach_sound hreach).distinct
    refine ⟨?_, fun x hx => absurd hx List.not_mem_nil, fun y hy => absurd hy List.not_mem_nil,
      fun y hy => absurd hy List.not_mem_nil⟩
    intro u hu t' ht'
    have hrow := hd.task?_of_mem hu
    rw [ht'] at hrow
    obtain rfl := Option.some.inj hrow
    obtain ⟨hgid, hnode, -, -⟩ := hrows t' (hnew ▸ hu)
    have hid : (t.maybeSettle now).1.graph.id = s₀.graph.id := hmoved.id
    refine ⟨?_, rfl⟩
    simp [GraphState.owns, hgid, hid, Option.isSome_iff_ne_none, hnode]
  · intro w e w' hs ht _ hstep
    exact ht.effect hs (step_effect hstep)

end

/-- A step that lets receipts decide: no failure is made final of a task whose node runs and has
published, no process dies that alone would have reported such a task, and nobody publishes for a
node that has failed, is about to or will not hear of its task. -/
def sparesReceipts (w : Publishing) (e : PublishEvent) : Bool :=
  w.graph.graph.status = .cancelled ||
    match e with
    | .table e => w.graph.nodes.all fun n => !(n.receipt.isSome && n.status = .running) ||
        n.task.all fun task => w.life.fails e ≠ some task && w.life.strands e ≠ some task
    | .leave => w.block.all fun b => b.payload.isNone || w.graph.nodes.all fun n =>
        n.key ≠ b.key || n.status = .succeeded ||
          (n.status = .running && !w.life.failing b.task && w.life.told b.task)
    | _ => true

/-- Nodes with a receipt have succeeded, or run with a task that does not fail and will be
reported. -/
def Sheltered (w : Publishing) : Prop :=
  w.graph.graph.status = .cancelled ∨ ∀ n ∈ w.graph.nodes, n.receipt ≠ none → n.status = .succeeded ∨
    n.status = .running ∧ ∀ task, n.task = some task →
      w.life.failing task = false ∧ w.life.told task = true

section
variable {conf : RetryDefaults} {limit : Nat} {w w' : Publishing} {env : Env}

namespace Sheltered

private theorem table {e : LifecycleEvent} {life : Lifecycle} (h : w.Sheltered) (hs : w.Sound limit)
    (ht : w.Tied) (hstep : w.life.step limit env e = some life)
    (hroute : ∀ j x, e = .route j → w.life.due[j]? = some x → w.graph.owns x.1 = true →
      (x.1.id, x.2, x.1.status) ∈ w.heard)
    (hf : w.graph.graph.status = .cancelled ∨ ∀ n ∈ w.graph.nodes, n.receipt ≠ none →
      n.status = .running → ∀ task, n.task = some task →
        w.life.fails e ≠ some task ∧ w.life.strands e ≠ some task) :
    ({ w with life } : Publishing).Sheltered := by
  rcases hf with hc | hf
  · exact .inl hc
  rcases h with hc | h
  · exact .inl hc
  refine .inr fun n hn hr => ?_
  rcases h n hn hr with hs' | ⟨hrun, htask⟩
  · exact .inl hs'
  refine .inr ⟨hrun, fun task hnt => ?_⟩
  obtain ⟨hfail, htold⟩ := htask task hnt
  obtain ⟨hfails, hstrands⟩ := hf n hn hr hrun task hnt
  have hopen := (hs.valid.nodes.rows n hn).open_iff.mpr (.inr (.inl hrun))
  refine ⟨?_, Lifecycle.step_told hs.distinct hstep htold ?_ hstrands⟩
  · by_contra hne
    rcases Lifecycle.step_failing hs.distinct hstep (Bool.of_not_eq_false hne) with hold | hnew
    · rw [hfail] at hold
      cases hold
    · exact hfails hnew
  · -- Whoever flags an attempt has had the node settled first.
    rintro j x he hj rfl hterm
    obtain ⟨ho, -⟩ := ht.held hs hn (List.mem_of_getElem? hj) hnt
    exact ht.heard _ (hroute j x he hj ho) hterm n hn hnt hopen

/-- Completions that are heard are of tasks in the hands of a process. -/
private theorem call {e : GraphEvent} {now : Time} (h : w.Sheltered) (hs : w.Sound limit)
    (hcall : w.call conf now e = .ok w')
    (he : ∀ task, e = .completion task → ∃ attempt, (task, attempt) ∈ w.life.due) : w'.Sheltered := by
  obtain ⟨r, hr, hgraph, -, -, -⟩ := call_ok hcall
  have hv := drawFrom_valid hs.valid w.life.store.nextId
  obtain ⟨s₀, hg₀, -, -, -, hheard, hmoved⟩ := call_moved hv hr
  obtain ⟨new, -, htasks, hdue, -, hrows⟩ := call_adds hs hcall
  rcases h with hc | h
  · refine .inl ?_
    rw [hgraph]
    exact hmoved.cancelled (by rw [hg₀]; exact hc)
  refine .inr fun n' hn' hr' => ?_
  rw [hgraph] at hn'
  obtain ⟨m, hm, hcar⟩ := hmoved.rows n' hn'
  obtain ⟨n, hn, hh⟩ := hheard m hm
  obtain ⟨-, -, ht, hrec, -⟩ := hh.columns
  have hg : n'.generation = m.generation := by
    by_contra hne
    exact hr' (hcar.renewed hne)
  obtain ⟨hrec', -, htask, -⟩ := hcar.same hg
  have hstatus := h n hn (by rw [← hrec, ← hrec']; exact hr')
  have hrow := hv.nodes.rows n hn
  have hrow' := (call_valid hv hr).nodes.rows n' hn'
  have hbound : n.task ≠ none := hrow.bound.mpr (by
    rcases hstatus with hs | ⟨hs, -⟩
    · exact .inr (.inl hs)
    · exact .inl hs)
  have htask' : n'.task = n.task := (htask (ht ▸ hbound)).trans ht
  rcases hrow'.bound.mp (htask' ▸ hbound) with hrun | hsucc | hfailed
  · refine .inr ⟨hrun, ?_⟩
    have hopen : n'.settledAt = none := hrow'.open_iff.mpr (.inr (.inl hrun))
    rcases hstatus with hs' | ⟨-, hfail⟩
    · -- A node that had succeeded stays settled.
      have hset : n.settledAt ≠ none := by
        intro hnone
        simpa [hs'] using hrow.open_iff.mp hnone
      exact absurd hopen (hcar.settled hg (hh.settled hset))
    · intro task ht'
      obtain ⟨hold, htold⟩ := hfail task (htask' ▸ ht')
      refine ⟨?_, ?_⟩
      · by_contra hne
        have hnew := Bool.of_not_eq_false hne
        unfold Lifecycle.failing at hold hnew
        rw [Bool.or_eq_false_iff] at hold
        rw [hdue, hold.2, Bool.or_false] at hnew
        obtain ⟨t, hrow, hdead⟩ := (Option.any_eq_true _ _).mp hnew
        rcases call_row hs htasks hrow with hrow | hmem
        · rw [hrow, Option.any_some, hdead] at hold
          cases hold.1
        · have hdead := of_decide_eq_true hdead
          rw [(hrows t hmem).2.2.1] at hdead
          simp [TaskStatus.Dead] at hdead
      · rw [Lifecycle.told_iff] at htold ⊢
        intro t hrow hterm
        rcases call_row hs htasks hrow with hrow | hmem
        · have htells := htold t hrow hterm
          unfold Lifecycle.tells at htells ⊢
          rw [hdue]
          exact htells
        · rw [(hrows t hmem).2.2.1] at hterm
          simp [TaskStatus.Terminal] at hterm
  · exact .inl hsucc
  · obtain ⟨hm, -⟩ := hcar.failed hfailed
    rcases hh with rfl | ⟨task, outcome, now, hcomp, hnt, hopen, hout, rfl⟩
    · rcases hstatus with hs | ⟨hs, -⟩
      · rw [hs] at hm
        cases hm
      · rw [hs] at hm
        cases hm
    · obtain ⟨attempt, hx⟩ := he task hcomp
      have hm : outcome = .failed := hm
      rw [hm] at hout
      have hdead : task.status.Dead := by
        cases hst : task.status with
        | failed => exact .inl rfl
        | exhausted => exact .inr rfl
        | pending | running | succeeded =>
          rw [hst] at hout
          cases hout
      rcases hstatus with hs | ⟨-, hfail⟩
      · have hno := hrow.open_iff.mp hopen
        rw [hs] at hno
        simp at hno
      · have hfalse := (hfail task.id hnt).1
        unfold Lifecycle.failing at hfalse
        rw [Bool.or_eq_false_iff] at hfalse
        have hno := List.any_eq_false.mp hfalse.2 (task, attempt) hx
        simp [hdead] at hno

theorem effect {e : PublishEvent} (h : w.Sheltered) (hs : w.Sound limit) (hf : w.Fenced) (ht : w.Tied)
    (hok : w.sparesReceipts e = true) (heff : PublishEffect conf limit w env e w') : w'.Sheltered := by
  unfold sparesReceipts at hok
  rw [Bool.or_eq_true, decide_eq_true_eq] at hok
  cases heff with
  | quiet | opened | noted | closed => exact h
  | @table e life hforeign hstep =>
    apply h.table hs ht hstep
    · rintro j x rfl hj ho
      simp only [foreign, hj, Option.all_some, ho, Bool.not_true] at hforeign
      cases hforeign
    rcases hok with hc | hok
    · exact .inl hc
    · refine .inr fun n hn hr hrun task hnt => ?_
      have hrow := List.all_eq_true.mp hok n hn
      simpa [Option.isSome_iff_ne_none, hr, hrun, hnt] using hrow
  | called he hb hcall => exact h.call hs hcall fun task heq => absurd heq (he task)
  | @completed i held attempt w' hd hb ho hcall =>
    have hdone := h.call hs hcall (by
      intro task heq
      cases heq
      exact ⟨attempt, List.mem_of_getElem? hd⟩)
    exact hdone
  | @finished i held attempt life hd ho hh hstep =>
    apply h.table hs ht hstep
    · intro j x he hj _
      cases he
      rw [hd] at hj
      obtain rfl := Option.some.inj hj
      exact hh
    · exact .inr fun n _ _ _ task _ => ⟨(fun hfails => by cases hfails), (fun hstrands => by cases hstrands)⟩
  | @published b payload life hb hp hstep =>
    have hquiet (task : TaskId) : w.life.fails (.commitOutput b.task b.attempt) ≠ some task ∧
        w.life.strands (.commitOutput b.task b.attempt) ≠ some task :=
      ⟨(fun hfails => by cases hfails), (fun hstrands => by cases hstrands)⟩
    have hnoroute (j : Nat) (x : QraftTask × AttemptId)
        (he : LifecycleEvent.commitOutput b.task b.attempt = .route j) : False := by cases he
    have hdone := h.table hs ht hstep (fun j x he => absurd he (hnoroute j x))
      (.inr fun n _ _ _ task _ => hquiet task)
    rcases hok with hc | hok
    · exact .inl hc
    rcases hdone with hc | hdone
    · exact .inl hc
    refine .inr fun n' hn' hr => ?_
    obtain ⟨n, hn, rfl⟩ := Rows.mem_updateWhere.mp hn'
    split
    · rename_i hsel
      simp only [Bool.and_eq_true, decide_eq_true_eq] at hsel
      simp only [hb, Option.all_some, hp, Option.isNone_some, Bool.false_or] at hok
      have hrow := List.all_eq_true.mp hok n hn
      simp only [hsel.1, ne_eq, not_true_eq_false, decide_false, Bool.false_or, Bool.or_eq_true,
        Bool.and_eq_true, decide_eq_true_eq, Bool.not_eq_true'] at hrow
      rcases hrow with hsucc | ⟨⟨hrun, hfail⟩, htold⟩
      · exact .inl hsucc
      · refine .inr ⟨hrun, fun task hnt => ?_⟩
        -- The block was opened for the task that is bound.
        obtain ⟨node, hnode, hk, -, hbound, -⟩ := hf.block b hb
        obtain rfl := hs.valid.nodes.eq_of_key hn hnode (hsel.1.trans hk.symm)
        have hnt : n.task = some task := hnt
        rw [hbound] at hnt
        obtain rfl := Option.some.inj hnt
        refine ⟨?_, Lifecycle.step_told hs.distinct hstep htold ?_ (hquiet b.task).2⟩
        · by_contra hne
          rcases Lifecycle.step_failing hs.distinct hstep (Bool.of_not_eq_false hne) with hold | hnew
          · rw [hfail] at hold
            cases hold
          · exact (hquiet b.task).1 hnew
        · exact fun j x he => absurd he (hnoroute j x)
    · rename_i hsel
      rw [if_neg hsel] at hr
      exact hdone n hn hr

end Sheltered

/-- Runs in which receipts decide. -/
abbrev ReachSparing (conf : RetryDefaults) (limit : Nat) : Publishing → Prop :=
  (publishingSystem conf limit).ReachWhen fun w e => w.sparesReceipts e.1 = true

theorem reach_sheltered (h : ReachSparing conf limit w) : w.Sheltered := by
  apply h.invariant_of (fun w => w.Sound limit ∧ w.Fenced ∧ w.Tied) Sheltered
  · exact fun w hw => ⟨reach_sound hw.reach, reach_fenced hw.reach, reach_tied hw.reach⟩
  · rintro w ⟨plan, id, now, graph, hstart, rfl⟩
    have hreach : (publishingSystem conf limit).Reach { life := { store := graph.store }, graph } :=
      .init ⟨plan, id, now, graph, hstart, rfl⟩
    refine .inr fun n hn hr => ?_
    obtain ⟨r, hrec, -⟩ := (reach_fenced hreach).recorded.held n hn hr
    have hempty := started_receipts hstart
    rw [hempty] at hrec
    cases hrec
  · rintro w ⟨e, env⟩ w' ⟨hs, hf, ht⟩ hsh hok hstep
    exact hsh.effect hs hf ht hok (step_effect hstep)

/-- In runs that let receipts decide, a receipt is authoritative: its node does not fail, and has
succeeded once the task is decided and no process or replay has anything of it left to route. -/
theorem receipt_authoritative (h : ReachSparing conf limit w) :
    w.graph.graph.status = .cancelled ∨
    ∀ r ∈ w.graph.receipts, ∀ n ∈ w.graph.nodes, n.key = r.key → n.generation = r.generation →
      n.receipt = some r.payload ∧ n.task = some r.task ∧ n.status ≠ .failed ∧
      (∀ t, w.life.store.task? r.task = some t → t.status.Terminal →
        (∀ x ∈ w.life.due, x.1.id ≠ r.task) →
        (∀ a ∈ t.attempts, a.success ≠ none → a.routed = true) → n.status = .succeeded) := by
  have hf := reach_fenced h.reach
  rcases reach_sheltered h with hc | hsh
  · exact .inl hc
  refine .inr fun r hr n hn hk hg => ?_
  rcases hf.recorded.rows r hr n hn hk with hlt | ⟨-, hbound, hrec, -⟩
  · exact absurd hg (Nat.ne_of_gt hlt)
  have hstatus := hsh n hn (by rw [hrec]; exact Option.some_ne_none _)
  refine ⟨hrec, hbound, ?_, ?_⟩
  · intro hfailed
    rcases hstatus with hst | ⟨hst, -⟩
    · cases hfailed.symm.trans hst
    · cases hfailed.symm.trans hst
  · intro t hrow hterm hidle hrouted
    rcases hstatus with hst | ⟨-, htask⟩
    · exact hst
    · -- A node that still runs has somebody who will report its task.
      have hid := (TaskStore.task?_eq_some hrow).2
      have htells := Lifecycle.told_iff.mp (htask r.task hbound).2 t hrow hterm
      rcases Lifecycle.tells_iff.mp htells with ⟨x, hx, hxid, -⟩ | ⟨a, ha, hdec, hflag, -⟩
      · exact absurd (hxid.trans hid) (hidle x hx)
      · cases (hrouted a ha hdec).symm.trans hflag

end

def workerResult (success : Bool) : List (PublishEvent × Env) := [
  (.table (.saveResult { id := 2, success, stopped := 4 }), { now := 4 }),
  (.table (.handleResult 0), { now := 5 }), (.completion 0, { now := 6 }), (.finish 0, { now := 7 })]

theorem receipt_authoritative_load : ∃ w, ReachSparing {} 3 w ∧ w.graph.receipts ≠ [] ∧
    w.graph.graph.status ≠ .cancelled ∧ ∀ r ∈ w.graph.receipts, ∀ n ∈ w.graph.nodes, n.key = r.key →
      n.generation = r.generation → n.status ≠ .failed := by
  obtain ⟨w, hreach, hp⟩ := exists_reachWhen_of_replay {} 3 loadPlan
    (fun w e => w.sparesReceipts e.1 = true) (publication ++ workerResult true)
    (fun w => decide (w.graph.receipts.length = 1 ∧ w.graph.graph.status = .succeeded)) (by decide)
  simp only [decide_eq_true_eq] at hp
  have hlive : w.graph.graph.status ≠ .cancelled := by
    rw [hp.2]
    exact fun h => by cases h
  refine ⟨w, hreach, ?_, hlive, ?_⟩
  · intro hnil
    rw [hnil] at hp
    cases hp.1
  · rcases receipt_authoritative hreach with hc | hall
    · exact absurd hc hlive
    · intro r hr n hn hk hg
      exact (hall r hr n hn hk hg).2.2.1

/-- The worker dies after its block has committed; the reaper that resolves the attempt by the stamp
dies in turn. -/
def lostReap : List (PublishEvent × Env) := [
  (.table (.selectStale 0 1 5), { now := 5 }), (.table (.readOrphan 0), { now := 5 }),
  (.table (.reap 0), { now := 6 }), (.table (.crash 0), { now := 6 })]

/-- The function raises after its block has committed, and the node has failed. Or the result is
lost: the node runs on, with nothing left to replay. -/
theorem receipt_overruled : (∃ w, (publishingSystem {} 3).Reach w ∧ w.graph.graph.status ≠ .cancelled ∧
    ∃ r ∈ w.graph.receipts, ∃ n ∈ w.graph.nodes, n.key = r.key ∧ n.generation = r.generation ∧
      n.receipt = some r.payload ∧ n.status = .failed) ∧
    ∃ w, (publishingSystem {} 3).Reach w ∧ w.graph.graph.status ≠ .cancelled ∧ w.life.due = [] ∧
      ∃ r ∈ w.graph.receipts, ∃ n ∈ w.graph.nodes, n.key = r.key ∧ n.generation = r.generation ∧
        n.status = .running ∧ ∃ t, w.life.store.task? r.task = some t ∧ t.status = .succeeded ∧
          ∀ a ∈ t.attempts, a.routed = true := by
  refine ⟨?_, ?_⟩
  · obtain ⟨w, hw, hp⟩ := exists_reach_of_replay {} 3 loadPlan (publication ++ workerResult false)
      (fun w => w.graph.graph.status ≠ .cancelled && w.graph.receipts.any fun r => w.graph.nodes.any fun n =>
        n.key = r.key && n.generation = r.generation && n.status = .failed) (by decide)
    rw [Bool.and_eq_true, decide_eq_true_eq] at hp
    obtain ⟨r, hr, hn⟩ := List.any_eq_true.mp hp.2
    obtain ⟨n, hn, hrow⟩ := List.any_eq_true.mp hn
    simp only [Bool.and_eq_true, decide_eq_true_eq] at hrow
    refine ⟨w, hw, hp.1, r, hr, n, hn, hrow.1.1, hrow.1.2, ?_, hrow.2⟩
    rcases (reach_fenced hw).recorded.rows r hr n hn hrow.1.1 with hlt | ⟨-, -, hrec, -⟩
    · exact absurd hrow.1.2 (Nat.ne_of_gt hlt)
    · exact hrec
  · obtain ⟨w, hw, hp⟩ := exists_reach_of_replay {} 3 loadPlan
      ((.table (.claimAndEnqueue 0 1 0), { now := 1 }) :: (.table (.lease 2 .start), { now := 1 }) ::
        publication.tail ++ lostReap)
      (fun w => w.graph.graph.status ≠ .cancelled && w.life.due.isEmpty && w.graph.receipts.any fun r =>
        w.graph.nodes.any fun n => n.key = r.key && n.generation = r.generation && n.status = .running &&
          (w.life.store.task? r.task).any fun t => t.status = .succeeded && t.attempts.all fun a => a.routed)
      (by decide)
    simp only [Bool.and_eq_true, decide_eq_true_eq, List.isEmpty_iff] at hp
    obtain ⟨⟨hlive, hidle⟩, hr⟩ := hp
    obtain ⟨r, hr, hn⟩ := List.any_eq_true.mp hr
    obtain ⟨n, hn, hrow⟩ := List.any_eq_true.mp hn
    simp only [Bool.and_eq_true, decide_eq_true_eq] at hrow
    obtain ⟨⟨⟨hk, hg⟩, hrun⟩, ht⟩ := hrow
    obtain ⟨t, ht, hdone⟩ := (Option.any_eq_true _ _).mp ht
    simp only [Bool.and_eq_true, decide_eq_true_eq, List.all_eq_true] at hdone
    exact ⟨w, hw, hlive, hidle, r, hr, n, hn, hk, hg, hrun, t, ht, hdone.1, hdone.2⟩

end Publishing
end Qraft
