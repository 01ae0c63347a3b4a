import Qraft.Retention.System
import Qraft.Retention.Window

/-! What a step beside a sweep leaves of the rows the sweep reads, and the shape the tables keep. -/
namespace Qraft
open QraftTask Lifecycle

/-- A task row at some later time: its links may have been nulled, a new status is stamped, and a
settled task stays so unless it was revived. -/
structure TaskLater (now : Time) (revived : List TaskId) (t t' : QraftTask) : Prop where
  id : t'.id = t.id
  graph : ∀ g, t'.graphId = some g → t.graphId = some g
  workflow : ∀ w, t'.workflow = some w → t.workflow = some w
  date : t'.dateUpdated = t.dateUpdated ∨ t'.dateUpdated = now
  settled : t.status.Terminal → t'.status.Terminal ∨ t'.id ∈ revived

structure EntryLater (now : Time) (resumed : List Workflow) (e e' : WorkflowEntry) : Prop where
  workflow : e'.workflow = e.workflow
  graph : ∀ g, e'.row.graphId = some g → e.row.graphId = some g
  date : e'.row.dateUpdated = e.row.dateUpdated ∨ e'.row.dateUpdated = now
  settled : e.row.status.Terminal → e'.row.status.Terminal ∨ e'.workflow ∈ resumed

structure GraphLater (resumed : List Workflow) (g g' : QraftGraph) : Prop where
  id : g'.id = g.id
  settled : g.status.Terminal → g'.status.Terminal ∨ .graph g'.id ∈ resumed

theorem TaskLater.refl (now : Time) (revived : List TaskId) (t : QraftTask) :
    TaskLater now revived t t := ⟨rfl, fun _ h => h, fun _ h => h, .inl rfl, .inl⟩

theorem EntryLater.refl (now : Time) (resumed : List Workflow) (e : WorkflowEntry) :
    EntryLater now resumed e e := ⟨rfl, fun _ h => h, .inl rfl, .inl⟩

theorem GraphLater.refl (resumed : List Workflow) (g : QraftGraph) : GraphLater resumed g g :=
  ⟨rfl, .inl⟩

/-- What a step leaves of the rows a sweep reads. New rows are stamped, and nothing refers to a new
plan yet. -/
structure Drift (now : Time) (resumed : List Workflow) (revived : List TaskId) (s s' : Retained) :
    Prop where
  nextId : s.life.store.nextId ≤ s'.life.store.nextId
  tasks : ∀ t' ∈ s'.life.store.tasks, (∃ t ∈ s.life.store.tasks, TaskLater now revived t t') ∨
    (s.life.store.nextId ≤ t'.id ∧ t'.dateUpdated = now)
  workflows : ∀ e' ∈ s'.workflows, (∃ e ∈ s.workflows, EntryLater now resumed e e') ∨
    ((∀ t' ∈ s'.life.store.tasks, t'.workflow ≠ some e'.workflow) ∧ e'.row.dateUpdated = now)
  graphs : ∀ g' ∈ s'.graphs, (∃ g ∈ s.graphs, GraphLater resumed g g') ∨
    ((∀ t' ∈ s'.life.store.tasks, t'.graphId ≠ some g'.id) ∧
      ∀ e' ∈ s'.workflows, e'.row.graphId ≠ some g'.id)

structure Shaped (s : Retained) : Prop where
  distinct : s.life.store.Distinct
  workflows : (s.workflows.map fun e => e.workflow).Nodup
  graphs : (s.graphs.map fun g => g.id).Nodup
  kinds : ∀ e ∈ s.workflows, Tables.chainModel e.workflow = true ∨ Tables.iterModel e.workflow = true ∨
    Tables.batchModel e.workflow = true
  /-- A member carries the graph label of its workflow. -/
  labels : ∀ t ∈ s.life.store.tasks, ∀ e ∈ s.workflows, t.workflow = some e.workflow →
    t.graphId = e.row.graphId
  /-- The execution of a node is a member of no workflow. -/
  nodes : ∀ t ∈ s.life.store.tasks, t.graphNode ≠ none → t.workflow = none
  dates : ∀ t ∈ s.life.store.tasks, t.dateUpdated ≤ s.clock

namespace Retained
variable {limit : Nat} {s s' : Retained} {env : Env} {e : LifecycleEvent}

/-- What becomes of a task when the task table moves. -/
theorem table_task {life : Lifecycle} (hs : Shaped s) (hstep : s.life.step limit env e = some life)
    {t' : QraftTask} (ht' : t' ∈ life.store.tasks) :
    (∃ t ∈ s.life.store.tasks, TaskLater env.now (s.revivedBy life) t t' ∧
      t'.graphId = t.graphId ∧ t'.workflow = t.workflow ∧ t'.graphNode = t.graphNode) ∨
    (s.life.store.nextId ≤ t'.id ∧ t'.dateUpdated = env.now ∧ ∃ m, Lifecycle.createdBy e = some m ∧
      t'.graphId = m.graphId ∧ t'.workflow = m.workflow ∧ t'.graphNode = m.graphNode) := by
  rcases Lifecycle.step_origin hs.distinct hstep ht' with ⟨t, hfind, heff⟩ |
    ⟨m, cluster, trace, rfl, rfl⟩ | ⟨m, cluster, rfl, hok⟩
  · obtain ⟨ht, hid⟩ := TaskStore.task?_eq_some hfind
    have hframe := heff.frame
    refine .inl ⟨t, ht, ⟨hid.symm, ?_, ?_, ?_, ?_⟩, ?_, ?_, ?_⟩
    · intro g hg
      rwa [hframe] at hg
    · intro w hw
      rwa [hframe] at hw
    · exact heff.stamped.imp And.right id
    · intro hterm
      by_cases hterm' : t'.status.Terminal
      · exact .inl hterm'
      · refine .inr (List.mem_map.mpr ⟨t, List.mem_filter.mpr ⟨ht, ?_⟩, hid⟩)
        rw [Bool.and_eq_true, decide_eq_true_eq, List.any_eq_true]
        exact ⟨hterm, t', ht', by simp [hid, hterm']⟩
    · rw [hframe]
    · rw [hframe]
    · rw [hframe]
  · exact .inr ⟨Nat.le_refl _, rfl, m, rfl, rfl, rfl, rfl⟩
  · obtain ⟨-, a, -, -, -, -, -, -, rfl⟩ := scheduleAttempt_ok hok
    exact .inr ⟨Nat.le_refl _, rfl, m, rfl, rfl, rfl, rfl⟩

section
variable (now : Time) (resumed : List Workflow) (revived : List TaskId) (s : Retained)

theorem kept_tasks : ∀ t' ∈ s.life.store.tasks, (∃ t ∈ s.life.store.tasks, TaskLater now revived t t') ∨
    (s.life.store.nextId ≤ t'.id ∧ t'.dateUpdated = now) :=
  fun t ht => .inl ⟨t, ht, .refl now revived t⟩

theorem kept_workflows : ∀ e' ∈ s.workflows, (∃ e ∈ s.workflows, EntryLater now resumed e e') ∨
    ((∀ t' ∈ s.life.store.tasks, t'.workflow ≠ some e'.workflow) ∧ e'.row.dateUpdated = now) :=
  fun e he => .inl ⟨e, he, .refl now resumed e⟩

theorem kept_graphs : ∀ g' ∈ s.graphs, (∃ g ∈ s.graphs, GraphLater resumed g g') ∨
    ((∀ t' ∈ s.life.store.tasks, t'.graphId ≠ some g'.id) ∧
      ∀ e' ∈ s.workflows, e'.row.graphId ≠ some g'.id) :=
  fun g hg => .inl ⟨g, hg, .refl resumed g⟩

end

/-- A step that touches none of these rows. -/
theorem drift_same (now : Time) (s : Retained) : Drift now [] [] s s :=
  ⟨Nat.le_refl _, kept_tasks now [] s, kept_workflows now [] s, kept_graphs [] s⟩

/-- The rows a delete leaves. -/
theorem drift_destroy (now : Time) (s : Retained) (rows : List RowKey) :
    Drift now [] [] s (s.withTables (s.tables.destroy rows)) := by
  refine ⟨Nat.le_refl _, ?_, ?_, ?_⟩
  · intro t' ht'
    obtain ⟨t, ht, he⟩ := List.mem_filterMap.mp ht'
    split at he
    · cases he
    · cases he
      refine .inl ⟨t, ht, rfl, ?_, ?_, .inl rfl, .inl⟩
      · exact fun g hg => ((t.unlink_graphId_eq_some rows).mp hg).1
      · exact fun w hw => ((t.unlink_workflow_eq_some rows).mp hw).1
  · intro e' he'
    obtain ⟨e, he, heq⟩ := List.mem_filterMap.mp he'
    split at heq
    · cases heq
    · cases heq
      refine .inl ⟨e, he, rfl, ?_, .inl rfl, .inl⟩
      intro g hg
      exact (Option.filter_eq_some_iff.mp hg).1
  · intro g hg
    exact .inl ⟨g, List.mem_of_mem_filter hg, .refl _ _⟩

theorem drift_writeGraph {id : GraphId} {f : QraftGraph → QraftGraph} {resumed : List Workflow}
    (hf : ∀ g ∈ s.graphs, g.id = id → GraphLater resumed g (f g)) (now : Time) :
    Drift now resumed [] s (s.writeGraph id f) := by
  refine ⟨Nat.le_refl _, kept_tasks now [] s, kept_workflows now resumed s, ?_⟩
  intro g' hg'
  obtain ⟨g, hg, rfl⟩ := Rows.mem_updateWhere.mp hg'
  refine .inl ⟨g, hg, ?_⟩
  split
  · rename_i hid
    exact hf g hg (of_decide_eq_true hid)
  · exact .refl _ _

theorem drift_writeWorkflow {w : Workflow} {f : WorkflowRow → WorkflowRow} {resumed : List Workflow}
    {now : Time} (hf : ∀ e ∈ s.workflows, e.workflow = w →
      EntryLater now resumed e { e with row := f e.row }) :
    Drift now resumed [] s (s.writeWorkflow w f) := by
  refine ⟨Nat.le_refl _, kept_tasks now [] s, ?_, ?_⟩
  · intro e' he'
    obtain ⟨e, he, rfl⟩ := Rows.mem_updateWhere.mp he'
    refine .inl ⟨e, he, ?_⟩
    split
    · rename_i hid
      exact hf e he (of_decide_eq_true hid)
    · exact .refl _ _ _
  · exact fun g hg => .inl ⟨g, hg, .refl _ _⟩

/-- Links of tasks that a step nulls beside. -/
theorem drift_relabel {now : Time} {resumed : List Workflow} {s s' : Retained}
    (h : Drift now resumed [] s s') {f : QraftTask → QraftTask} (hf : ∀ t, TaskLater now [] t (f t))
    (hdate : ∀ t, (f t).dateUpdated = t.dateUpdated) :
    Drift now resumed [] s { s' with life := s'.life.relabel f } := by
  refine ⟨h.nextId, ?_, ?_, ?_⟩
  · intro t'' ht''
    obtain ⟨t', ht', rfl⟩ := List.mem_map.mp ht''
    rcases h.tasks t' ht' with ⟨t, ht, hl⟩ | ⟨hn, hd⟩
    · refine .inl ⟨t, ht, (hf t').id.trans hl.id, fun g hg => hl.graph g ((hf t').graph g hg),
        fun w hw => hl.workflow w ((hf t').workflow w hw), hdate t' ▸ hl.date, ?_⟩
      intro hterm
      rcases hl.settled hterm with hterm' | hmem
      · exact (hf t').settled hterm'
      · cases hmem
    · exact .inr ⟨(hf t').id ▸ hn, hdate t' ▸ hd⟩
  · intro e' he'
    rcases h.workflows e' he' with hold | ⟨hnone, hd⟩
    · exact .inl hold
    · refine .inr ⟨?_, hd⟩
      intro t'' ht'' hw
      obtain ⟨t', ht', rfl⟩ := List.mem_map.mp ht''
      exact hnone t' ht' ((hf t').workflow _ hw)
  · intro g' hg'
    rcases h.graphs g' hg' with hold | ⟨hnone, hrows⟩
    · exact .inl hold
    · refine .inr ⟨?_, hrows⟩
      intro t'' ht'' hw
      obtain ⟨t', ht', rfl⟩ := List.mem_map.mp ht''
      exact hnone t' ht' ((hf t').graph _ hw)

theorem sweepStep_tables (tb : Tables) (sw : Sweep) : (tb.sweepStep sw).1 = tb ∨
    ∃ rows, sw.stage = .destroying rows ∧ (tb.sweepStep sw).1 = tb.destroy rows := by
  unfold Tables.sweepStep
  split
  · exact .inl rfl
  · exact .inl rfl
  · exact .inl rfl
  · split
    · exact .inl rfl
    · exact .inl rfl
  · exact .inl rfl
  · rename_i rows hstage
    exact .inr ⟨rows, hstage, rfl⟩

theorem unlinkStep_frame (w : Workflow) (current : Option TaskId) (t : QraftTask) :
    unlinkStep w current t = { t with workflow := (unlinkStep w current t).workflow } := by
  unfold unlinkStep
  split
  · rfl
  · rfl

theorem taskLater_unlinkStep (now : Time) (w : Workflow) (current : Option TaskId) (t : QraftTask) :
    TaskLater now [] t (unlinkStep w current t) := by
  unfold unlinkStep
  split
  · exact ⟨rfl, fun _ h => h, (fun _ h => by cases h), .inl rfl, .inl⟩
  · exact .refl _ _ t

/-- What a step does to the rows a sweep reads, and to the sweeps. -/
theorem step_drift (hs : Shaped s) {e : RetainedEvent} (hstep : s.step limit env e = some s') :
    ∃ resumed revived, Drift env.now resumed revived s s' ∧ ∀ sw' ∈ s'.sweeps,
      (∃ sw ∈ s.sweeps, sw' = { sw with
        resumed := resumed ++ sw.resumed, revived := revived ++ sw.revived }) ∨
      (∃ c : RetentionSettings, ∃ cutoff, c.cutoff env.now s.tables = some cutoff ∧
        sw' = { cutoff, batchSize := c.batchSize }) ∨
      ∃ sw ∈ s.sweeps, resumed = [] ∧ revived = [] ∧ (s.tables.sweepStep sw).2 = some sw' := by
  have old {s : Retained} {sw' : Sweep} (h : sw' ∈ s.sweeps) : ∃ sw ∈ s.sweeps, sw' = { sw with
      resumed := [] ++ sw.resumed, revived := [] ++ sw.revived } := ⟨sw', h, rfl⟩
  cases e with
  | table e =>
    simp only [step] at hstep
    split at hstep
    · obtain ⟨life, hlife, rfl⟩ := Option.map_eq_some_iff.mp hstep
      refine ⟨[], s.revivedBy life, ⟨Lifecycle.step_nextId hlife, ?_, ?_, kept_graphs [] _⟩, ?_⟩
      · intro t' ht'
        rcases table_task hs hlife ht' with ⟨t, ht, hl, -⟩ | ⟨hn, hd, -⟩
        · exact .inl ⟨t, ht, hl⟩
        · exact .inr ⟨hn, hd⟩
      · exact fun w hw => .inl ⟨w, hw, .refl _ _ w⟩
      · intro sw' hsw'
        obtain ⟨sw, hsw, rfl⟩ := List.mem_map.mp hsw'
        exact .inl ⟨sw, hsw, rfl⟩
    · cases hstep
  | startGraph id =>
    simp only [step] at hstep
    split at hstep
    · cases hstep
    · rename_i hfresh
      simp only [not_or, Bool.not_eq_true, List.any_eq_false, decide_eq_true_eq] at hfresh
      cases hstep
      refine ⟨[], [], ⟨Nat.le_refl _, kept_tasks _ [] s, kept_workflows _ [] s, ?_⟩, fun _ h => .inl (old h)⟩
      intro g' hg'
      rcases List.mem_append.mp hg' with hg' | hg'
      · exact .inl ⟨g', hg', .refl _ _⟩
      · rw [List.mem_singleton.mp hg']
        exact .inr ⟨hfresh.2.1, hfresh.2.2⟩
  | moveGraph id status =>
    simp only [step] at hstep
    split at hstep
    · rename_i hlive
      cases hstep
      refine ⟨[], [], drift_writeGraph ?_ env.now, fun _ h => .inl (old h)⟩
      intro g hg hid
      refine ⟨rfl, fun hterm => ?_⟩
      obtain ⟨g', hg', hlive⟩ := List.any_eq_true.mp hlive
      rw [Bool.and_eq_true, decide_eq_true_eq, decide_eq_true_eq] at hlive
      obtain rfl := Rows.eq_of_key_eq hs.graphs hg hg' (hid.trans hlive.1.symm)
      exact absurd hterm hlive.2
    · cases hstep
  | resumeGraph id =>
    simp only [step] at hstep
    split at hstep
    · cases hstep
      have hd : Drift env.now [.graph id] [] s (s.writeGraph id (graphResumed env.now)) := by
        refine drift_writeGraph ?_ env.now
        intro g hg hid
        exact ⟨rfl, fun _ => .inr (List.mem_singleton.mpr (congrArg _ hid))⟩
      refine ⟨[.graph id], [], ⟨hd.nextId, hd.tasks, hd.workflows, hd.graphs⟩, ?_⟩
      intro sw' hsw'
      obtain ⟨sw, hsw, rfl⟩ := List.mem_map.mp hsw'
      exact .inl ⟨sw, hsw, rfl⟩
    · cases hstep
  | create workflow row =>
    simp only [step] at hstep
    split at hstep
    · cases hstep
    · rename_i hfresh
      simp only [not_or, Bool.not_eq_true, List.any_eq_false, decide_eq_true_eq] at hfresh
      cases hstep
      refine ⟨[], [], ⟨Nat.le_refl _, kept_tasks _ [] s, ?_, ?_⟩, fun _ h => .inl (old h)⟩
      · intro e' he'
        rcases List.mem_append.mp he' with he' | he'
        · exact .inl ⟨e', he', .refl _ _ _⟩
        · rw [List.mem_singleton.mp he']
          exact .inr ⟨hfresh.2.2.1, rfl⟩
      · exact fun g hg => .inl ⟨g, hg, .refl _ _⟩
  | moveWorkflow workflow status =>
    simp only [step] at hstep
    split at hstep
    · rename_i hlive
      cases hstep
      refine ⟨[], [], drift_writeWorkflow ?_, fun _ h => .inl (old h)⟩
      intro e he hid
      refine ⟨rfl, fun _ h => h, .inr rfl, fun hterm => ?_⟩
      obtain ⟨e', he', hlive⟩ := List.any_eq_true.mp hlive
      rw [Bool.and_eq_true, decide_eq_true_eq, decide_eq_true_eq] at hlive
      obtain rfl := Rows.eq_of_key_eq hs.workflows he he' (hid.trans hlive.1.symm)
      exact absurd hterm hlive.2
    · cases hstep
  | resumeChain workflow current =>
    simp only [step] at hstep
    split at hstep
    · cases hstep
      have hd : Drift env.now [workflow] [] s (s.writeWorkflow workflow (rowResumed env.now)) :=
        drift_writeWorkflow fun e he hid =>
          ⟨rfl, fun _ h => h, .inr rfl, fun _ => .inr (List.mem_singleton.mpr hid)⟩
      have hd' : Drift env.now [workflow] [] s { s.writeWorkflow workflow (rowResumed env.now) with
          life := s.life.relabel (unlinkStep workflow current) } :=
        drift_relabel hd (taskLater_unlinkStep env.now workflow current) fun t => by
          rw [unlinkStep_frame]
      refine ⟨[workflow], [], ⟨hd'.nextId, hd'.tasks, hd'.workflows, hd'.graphs⟩, ?_⟩
      intro sw' hsw'
      obtain ⟨sw, hsw, rfl⟩ := List.mem_map.mp hsw'
      exact .inl ⟨sw, hsw, rfl⟩
    · cases hstep
  | recordSettlement r =>
    cases hstep
    exact ⟨[], [], ⟨Nat.le_refl _, kept_tasks _ [] s, kept_workflows _ [] s, kept_graphs [] s⟩,
      fun _ h => .inl (old h)⟩
  | dispatchHook d =>
    cases hstep
    exact ⟨[], [], ⟨Nat.le_refl _, kept_tasks _ [] s, kept_workflows _ [] s, kept_graphs [] s⟩,
      fun _ h => .inl (old h)⟩
  | startSweep conf args =>
    obtain ⟨cutoff, hcut, rfl⟩ := Option.map_eq_some_iff.mp hstep
    refine ⟨[], [], ⟨Nat.le_refl _, kept_tasks _ [] s, kept_workflows _ [] s, kept_graphs [] s⟩, ?_⟩
    intro sw' hsw'
    rcases List.mem_append.mp hsw' with hsw' | hsw'
    · exact .inl (old hsw')
    · exact .inr (.inl ⟨_, cutoff, hcut, List.mem_singleton.mp hsw'⟩)
  | sweep i =>
    obtain ⟨sw, hsw, rfl⟩ := Option.map_eq_some_iff.mp hstep
    refine ⟨[], [], ?_, ?_⟩
    · have hd : Drift env.now [] [] s (s.withTables (s.tables.sweepStep sw).1) := by
        rcases sweepStep_tables s.tables sw with he | ⟨rows, -, he⟩
        · rw [he]
          exact drift_same env.now s
        · rw [he]
          exact drift_destroy env.now s rows
      exact ⟨hd.nextId, hd.tasks, hd.workflows, hd.graphs⟩
    · intro sw' hsw'
      simp only at hsw'
      cases hnext : (s.tables.sweepStep sw).2 with
      | none =>
        rw [hnext] at hsw'
        exact .inl (old ((List.eraseIdx_sublist _ _).subset hsw'))
      | some sw'' =>
        rw [hnext] at hsw'
        rcases List.mem_or_eq_of_mem_set hsw' with hmem | rfl
        · exact .inl (old hmem)
        · exact .inr (.inr ⟨sw, List.mem_of_getElem? hsw, rfl, rfl, hnext⟩)

theorem ids_writeGraph (id : GraphId) {f : QraftGraph → QraftGraph} (hf : ∀ g, (f g).id = g.id) :
    ((s.writeGraph id f).graphs.map fun g => g.id) = s.graphs.map fun g => g.id :=
  Rows.map_updateWhere _ fun g _ _ => hf g

theorem keys_writeWorkflow (w : Workflow) (f : WorkflowRow → WorkflowRow) :
    ((s.writeWorkflow w f).workflows.map fun e => e.workflow) = s.workflows.map fun e => e.workflow :=
  Rows.map_updateWhere _ fun _ _ _ => rfl

theorem mem_writeWorkflow {w : Workflow} {f : WorkflowRow → WorkflowRow} {e' : WorkflowEntry}
    (h : e' ∈ (s.writeWorkflow w f).workflows) (hf : ∀ row, (f row).graphId = row.graphId) :
    ∃ e ∈ s.workflows, e'.workflow = e.workflow ∧ e'.row.graphId = e.row.graphId := by
  obtain ⟨e, he, rfl⟩ := Rows.mem_updateWhere.mp h
  refine ⟨e, he, ?_⟩
  split
  · exact ⟨rfl, hf e.row⟩
  · exact ⟨rfl, rfl⟩

/-- A step that keeps the tables in shape but for the clock. -/
theorem shaped_drift {now : Time} {resumed : List Workflow} {revived : List TaskId} (hs : Shaped s)
    (hclock : s.clock ≤ now) (hd : Drift now resumed revived s s') (distinct : s'.life.store.Distinct)
    (workflows : (s'.workflows.map fun e => e.workflow).Nodup) (graphs : (s'.graphs.map fun g => g.id).Nodup)
    (kinds : ∀ e ∈ s'.workflows, Tables.chainModel e.workflow = true ∨
      Tables.iterModel e.workflow = true ∨ Tables.batchModel e.workflow = true)
    (labels : ∀ t ∈ s'.life.store.tasks, ∀ e ∈ s'.workflows, t.workflow = some e.workflow →
      t.graphId = e.row.graphId)
    (nodes : ∀ t ∈ s'.life.store.tasks, t.graphNode ≠ none → t.workflow = none) :
    Shaped { s' with clock := now } := by
  refine ⟨distinct, workflows, graphs, kinds, labels, nodes, ?_⟩
  intro t' ht'
  rcases hd.tasks t' ht' with ⟨t, ht, hl⟩ | ⟨-, hdate⟩
  · rcases hl.date with he | he
    · rw [he]
      exact le_trans (hs.dates t ht) hclock
    · exact he.le
  · exact hdate.le

/-- A step that makes no row of a task or a workflow: labels go, or change alike on both. -/
private theorem shaped_narrowed {now : Time} {resumed : List Workflow} {revived : List TaskId} (hs : Shaped s)
    (hclock : s.clock ≤ now) (hd : Drift now resumed revived s s') (distinct : s'.life.store.Distinct)
    (workflows : (s'.workflows.map fun e => e.workflow).Nodup) (graphs : (s'.graphs.map fun g => g.id).Nodup)
    (relabel : Option GraphId → Option GraphId)
    (hentry : ∀ e' ∈ s'.workflows, ∃ e ∈ s.workflows, e'.workflow = e.workflow ∧
      e'.row.graphId = relabel e.row.graphId)
    (htask : ∀ t' ∈ s'.life.store.tasks, ∃ t ∈ s.life.store.tasks, t'.graphId = relabel t.graphId ∧
      t'.graphNode = t.graphNode ∧ ∀ w, t'.workflow = some w → t.workflow = some w) :
    Shaped { s' with clock := now } := by
  refine shaped_drift hs hclock hd distinct workflows graphs ?_ ?_ ?_
  · intro e' he'
    obtain ⟨e, he, hw, -⟩ := hentry e' he'
    exact hw ▸ hs.kinds e he
  · intro t' ht' e' he' hmem
    obtain ⟨t, ht, hgraph, -, hkept⟩ := htask t' ht'
    obtain ⟨e, he, hw, hg⟩ := hentry e' he'
    rw [hgraph, hg, hs.labels t ht e he (hw ▸ hkept _ hmem)]
  · intro t' ht' hn
    obtain ⟨t, ht, -, hnode, hkept⟩ := htask t' ht'
    by_contra hne
    obtain ⟨w, hw⟩ := Option.ne_none_iff_exists'.mp hne
    have hold := hkept w hw
    rw [hs.nodes t ht (hnode ▸ hn)] at hold
    cases hold

/-- A step of the task table creates tasks under the labels it may. -/
private theorem shaped_table {e : LifecycleEvent} {life : Lifecycle} {resumed : List Workflow}
    {revived : List TaskId} (hs : Shaped s) (hclock : s.clock ≤ env.now)
    (hd : Drift env.now resumed revived s { s.noteRevived (s.revivedBy life) with life })
    (hlife : s.life.step limit env e = some life) (hadm : (Lifecycle.createdBy e).all s.admits = true) :
    Shaped { s.noteRevived (s.revivedBy life) with life, clock := env.now } := by
  have hnew {m : QraftTask} (hm : Lifecycle.createdBy e = some m) : s.admits m = true := by
    rw [hm, Option.all_some] at hadm
    exact hadm
  refine shaped_drift hs hclock hd (Lifecycle.step_rows hs.distinct hlife).1 hs.workflows hs.graphs
    hs.kinds ?_ ?_
  · intro t' ht' w hw hmem
    rcases table_task hs hlife ht' with ⟨t, ht, -, hg, hwf, -⟩ | ⟨-, -, m, hm, hg, hwf, -⟩
    · rw [hg]
      exact hs.labels t ht w hw (hwf ▸ hmem)
    · have ha := hnew hm
      rw [hwf] at hmem
      simp only [admits, hmem, Bool.and_eq_true, List.all_eq_true, Bool.or_eq_true,
        decide_eq_true_eq] at ha
      rcases ha.2.2 w hw with hne | he
      · exact absurd rfl hne
      · rw [hg, he]
  · intro t' ht' hn
    rcases table_task hs hlife ht' with ⟨t, ht, -, -, hwf, hnode⟩ | ⟨-, -, m, hm, -, hwf, hnode⟩
    · rw [hwf]
      exact hs.nodes t ht (hnode ▸ hn)
    · have ha := hnew hm
      rw [hwf]
      cases hmw : m.workflow with
      | none => rfl
      | some w =>
        simp only [admits, hmw, Bool.and_eq_true, Option.isNone_iff_eq_none] at ha
        rw [hnode, ha.2.1.1] at hn
        exact absurd rfl hn

/-- Rows that are deleted take their labels with them. -/
private theorem shaped_destroy {sweeps : List Sweep} {resumed : List Workflow} {revived : List TaskId}
    {now : Time} (hs : Shaped s) (hclock : s.clock ≤ now) (rows : List RowKey)
    (hd : Drift now resumed revived s { s.withTables (s.tables.destroy rows) with sweeps }) :
    Shaped { s.withTables (s.tables.destroy rows) with sweeps, clock := now } := by
  refine shaped_narrowed hs hclock hd ?_ ?_ ?_ (fun graph => graph.filter fun g => RowKey.plan (.graph g) ∉ rows)
    ?_ ?_
  · apply hs.distinct.filterMap
    intro t t' heq
    split at heq
    · cases heq
    · cases heq
      exact ⟨rfl, rfl⟩
  · refine hs.workflows.sublist (Rows.filterMap_sublist ?_ _)
    intro e e' heq
    split at heq
    · cases heq
    · cases heq
      rfl
  · exact hs.graphs.sublist (List.filter_sublist.map _)
  · intro e' he'
    obtain ⟨e, he, heq⟩ := List.mem_filterMap.mp he'
    split at heq
    · cases heq
    · cases heq
      exact ⟨e, he, rfl, rfl⟩
  · intro t' ht'
    obtain ⟨t, ht, heq⟩ := List.mem_filterMap.mp ht'
    split at heq
    · cases heq
    · cases heq
      exact ⟨t, ht, rfl, rfl, fun w hw => ((t.unlink_workflow_eq_some rows).mp hw).1⟩

theorem shaped_step (hs : Shaped s) {e : RetainedEvent} (hclock : s.clock ≤ env.now)
    (hstep : s.step limit env e = some s') : Shaped { s' with clock := env.now } := by
  obtain ⟨resumed, revived, hd, -⟩ := step_drift hs hstep
  have same (t : QraftTask) (ht : t ∈ s.life.store.tasks) : ∃ u ∈ s.life.store.tasks, t.graphId = u.graphId ∧
      t.graphNode = u.graphNode ∧ ∀ w, t.workflow = some w → u.workflow = some w :=
    ⟨t, ht, rfl, rfl, fun _ h => h⟩
  cases e with
  | table e =>
    simp only [step] at hstep
    split at hstep
    · rename_i hadm
      obtain ⟨life, hlife, rfl⟩ := Option.map_eq_some_iff.mp hstep
      exact shaped_table hs hclock hd hlife hadm
    · cases hstep
  | startGraph id =>
    simp only [step] at hstep
    split at hstep
    · cases hstep
    · rename_i hfresh
      simp only [not_or, Bool.not_eq_true, List.any_eq_false, decide_eq_true_eq] at hfresh
      cases hstep
      refine shaped_drift hs hclock hd hs.distinct hs.workflows ?_ hs.kinds hs.labels hs.nodes
      rw [List.map_append, List.map_singleton, ← List.concat_eq_append]
      refine List.Nodup.concat (fun hin => ?_) hs.graphs
      obtain ⟨g, hg, hid⟩ := List.mem_map.mp hin
      exact hfresh.1 g hg hid
  | moveGraph id status =>
    simp only [step] at hstep
    split at hstep
    · cases hstep
      refine shaped_drift hs hclock hd hs.distinct hs.workflows ?_ hs.kinds hs.labels hs.nodes
      exact (s.ids_writeGraph id (f := graphMoved status env.now) fun _ => rfl) ▸ hs.graphs
    · cases hstep
  | resumeGraph id =>
    simp only [step] at hstep
    split at hstep
    · cases hstep
      refine shaped_drift hs hclock hd hs.distinct hs.workflows ?_ hs.kinds hs.labels hs.nodes
      exact (s.ids_writeGraph id (f := graphResumed env.now) fun _ => rfl) ▸ hs.graphs
    · cases hstep
  | create workflow row =>
    simp only [step] at hstep
    split at hstep
    · cases hstep
    · rename_i hfresh
      simp only [not_or, Bool.not_eq_true, List.any_eq_false, decide_eq_true_eq] at hfresh
      cases hstep
      refine shaped_drift hs hclock hd hs.distinct ?_ hs.graphs ?_ ?_ hs.nodes
      · rw [List.map_append, List.map_singleton, ← List.concat_eq_append]
        refine List.Nodup.concat (fun hin => ?_) hs.workflows
        obtain ⟨e, he, hkey⟩ := List.mem_map.mp hin
        exact hfresh.2.1 e he hkey
      · intro e he
        rcases List.mem_append.mp he with he | he
        · exact hs.kinds e he
        · rw [List.mem_singleton.mp he]
          have hk := hfresh.1
          simp only [Bool.and_eq_false_iff, Bool.not_eq_false', or_assoc] at hk
          exact hk
      · intro t ht e he hw
        rcases List.mem_append.mp he with he | he
        · exact hs.labels t ht e he hw
        · rw [List.mem_singleton.mp he] at hw
          exact absurd hw (hfresh.2.2.1 t ht)
  | moveWorkflow workflow status =>
    simp only [step] at hstep
    split at hstep
    · cases hstep
      refine shaped_narrowed hs hclock hd hs.distinct ?_ hs.graphs id ?_ same
      · rw [keys_writeWorkflow]
        exact hs.workflows
      · exact fun e' he' => mem_writeWorkflow he' fun _ => rfl
    · cases hstep
  | resumeChain workflow current =>
    simp only [step] at hstep
    split at hstep
    · cases hstep
      have hframe := unlinkStep_frame workflow current
      have hdist : (s.life.relabel (unlinkStep workflow current)).store.Distinct := by
        apply hs.distinct.map
        intro t
        rw [hframe t]
        exact ⟨rfl, rfl⟩
      refine shaped_narrowed hs hclock hd hdist ?_ hs.graphs id ?_ ?_
      · exact (s.keys_writeWorkflow workflow (rowResumed env.now)) ▸ hs.workflows
      · exact fun e' he' => mem_writeWorkflow (f := rowResumed env.now) he' fun _ => rfl
      · intro t' ht'
        obtain ⟨t, ht, rfl⟩ := List.mem_map.mp ht'
        refine ⟨t, ht, ?_, ?_, (taskLater_unlinkStep env.now workflow current t).workflow⟩
        · rw [hframe t]
          rfl
        · rw [hframe t]
    · cases hstep
  | recordSettlement r =>
    cases hstep
    exact shaped_drift hs hclock hd hs.distinct hs.workflows hs.graphs hs.kinds hs.labels hs.nodes
  | dispatchHook d =>
    cases hstep
    exact shaped_drift hs hclock hd hs.distinct hs.workflows hs.graphs hs.kinds hs.labels hs.nodes
  | startSweep conf args =>
    obtain ⟨cutoff, hcut, rfl⟩ := Option.map_eq_some_iff.mp hstep
    exact shaped_drift hs hclock hd hs.distinct hs.workflows hs.graphs hs.kinds hs.labels hs.nodes
  | sweep i =>
    obtain ⟨sw, hsw, rfl⟩ := Option.map_eq_some_iff.mp hstep
    simp only at hd ⊢
    rcases sweepStep_tables s.tables sw with he | ⟨rows, -, he⟩
    · rw [he] at hd ⊢
      exact shaped_drift hs hclock hd hs.distinct hs.workflows hs.graphs hs.kinds hs.labels hs.nodes
    · rw [he] at hd ⊢
      exact shaped_destroy hs hclock rows hd

end Retained

end Qraft
