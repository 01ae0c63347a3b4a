import Qraft.Retention.Sweep

/-! What a sweep that nothing disturbs takes: the passes come down to one deletion, of the rows
selected at the start. -/
namespace Qraft

section
variable {l : List RowKey}

private theorem filter_mem_take (hn : l.Nodup) (n : Nat) : (l.filter fun k => k ∈ l.take n) = l.take n := by
  have hdis := List.disjoint_take_drop hn (Nat.le_refl n)
  have hsplit := List.take_append_drop n l
  calc (l.filter fun k => k ∈ l.take n)
      = (l.take n ++ l.drop n).filter fun k => k ∈ l.take n := by rw [hsplit]
    _ = l.take n ++ [] := by
      rw [List.filter_append]
      congr 1
      · exact List.filter_eq_self.mpr fun k hk => decide_eq_true hk
      · rw [List.filter_eq_nil_iff]
        intro k hk
        rw [decide_eq_true_eq]
        exact fun ht => hdis ht hk
    _ = l.take n := List.append_nil _

private theorem filter_not_mem_take (hn : l.Nodup) (n : Nat) :
    (l.filter fun k => k ∉ l.take n) = l.drop n := by
  have hdis := List.disjoint_take_drop hn (Nat.le_refl n)
  have hsplit := List.take_append_drop n l
  calc (l.filter fun k => k ∉ l.take n)
      = (l.take n ++ l.drop n).filter fun k => k ∉ l.take n := by rw [hsplit]
    _ = [] ++ l.drop n := by
      rw [List.filter_append]
      congr 1
      · rw [List.filter_eq_nil_iff]
        intro k hk
        rw [decide_eq_true_eq]
        exact fun hk' => hk' hk
      · exact List.filter_eq_self.mpr fun k hk => decide_eq_true fun ht => hdis ht hk
    _ = l.drop n := List.nil_append _

end

/-- A reference that none of the rows holds is kept. -/
private theorem filter_kept {α : Type} {o : Option α} {p : α → Bool} (h : ∀ x, o = some x → p x = true) :
    o.filter p = o := by
  cases o with
  | none => rfl
  | some x => exact if_pos (h x rfl)

namespace QraftTask
variable (t : QraftTask) (a b : List RowKey)

@[simp] theorem unlink_id : (t.unlink a).id = t.id := rfl
@[simp] theorem unlink_status : (t.unlink a).status = t.status := rfl
@[simp] theorem unlink_dateUpdated : (t.unlink a).dateUpdated = t.dateUpdated := rfl
@[simp] theorem unlink_graphNode : (t.unlink a).graphNode = t.graphNode := rfl
@[simp] theorem unlink_liveMember : (t.unlink a).liveMember = t.liveMember := rfl

@[simp] theorem reached_nil : t.reached [] = false := by
  simp [reached]

@[simp] theorem unlink_nil : t.unlink [] = t := by
  simp [unlink, filter_kept]

theorem reached_iff : t.reached a = true ↔ .task t.id ∈ a ∨
    (∃ w, t.workflow = some w ∧ w.cascades = true ∧ .plan w ∈ a) ∨
    (t.graphNode ≠ none ∧ ∃ g, t.graphId = some g ∧ .plan (.graph g) ∈ a) := by
  simp only [reached, Bool.or_eq_true, Bool.and_eq_true, Option.any_eq_true, decide_eq_true_eq,
    Option.isSome_iff_ne_none, or_assoc]

theorem unlink_workflow_eq_some {w : Workflow} :
    (t.unlink a).workflow = some w ↔ t.workflow = some w ∧ .plan w ∉ a := by
  simp [unlink, Option.filter_eq_some_iff]

theorem unlink_graphId_eq_some {g : GraphId} :
    (t.unlink a).graphId = some g ↔ t.graphId = some g ∧ .plan (.graph g) ∉ a := by
  simp [unlink, Option.filter_eq_some_iff]

/-- Two deletions, one after the other, reach what one deletion does. -/
theorem reached_append : t.reached (a ++ b) = (t.reached a || (t.unlink a).reached b) := by
  rw [Bool.eq_iff_iff, Bool.or_eq_true]
  simp only [reached_iff, List.mem_append, unlink_id, unlink_graphNode, unlink_workflow_eq_some,
    unlink_graphId_eq_some]
  grind

theorem unlink_unlink : (t.unlink a).unlink b = t.unlink (a ++ b) := by
  simp only [unlink, Option.filter_filter, List.mem_append, not_or, Bool.decide_and]

end QraftTask

namespace Tables
variable {tb : Tables} {a b : List RowKey}

@[simp] theorem delete_nil (tb : Tables) : tb.delete [] = tb := by
  simp [delete, filter_kept]

theorem delete_delete (tb : Tables) (a b : List RowKey) : (tb.delete a).delete b = tb.delete (a ++ b) := by
  simp only [delete, List.filterMap_filterMap, List.filter_filter, Tables.mk.injEq]
  refine ⟨?_, ?_, ?_, ?_, ?_⟩
  · apply List.filterMap_congr
    intro t ht
    rw [t.reached_append]
    by_cases h : t.reached a
    · simp [h]
    · simp [h, t.unlink_unlink]
  · apply List.filterMap_congr
    intro e he
    by_cases h : RowKey.plan e.workflow ∈ a
    · simp [h]
    · simp [h, Option.filter_filter]
  all_goals
    apply List.filter_congr
    intro r hr
    simp [Bool.and_comm]

theorem mem_delete_tasks {r : QraftTask} :
    r ∈ (tb.delete a).tasks ↔ ∃ t ∈ tb.tasks, t.reached a = false ∧ r = t.unlink a := by
  simp only [delete, List.mem_filterMap]
  constructor
  · rintro ⟨t, ht, he⟩
    split at he
    · cases he
    · rename_i h
      exact ⟨t, ht, Bool.eq_false_iff.mpr h, (Option.some.inj he).symm⟩
  · rintro ⟨t, ht, h, rfl⟩
    exact ⟨t, ht, by simp [h]⟩

def Survives (tb : Tables) (t : QraftTask) : Prop := ∃ r ∈ tb.tasks, r.id = t.id

theorem Keyed.survives_delete (hk : tb.Keyed) {t : QraftTask} (ht : t ∈ tb.tasks) :
    (tb.delete a).Survives t ↔ t.reached a = false := by
  constructor
  · rintro ⟨r, hr, hid⟩
    obtain ⟨u, hu, hreach, rfl⟩ := mem_delete_tasks.mp hr
    obtain rfl := Rows.eq_of_key_eq hk.tasks hu ht hid
    exact hreach
  · intro h
    exact ⟨t.unlink a, mem_delete_tasks.mpr ⟨t, ht, h, rfl⟩, rfl⟩

theorem Keyed.delete (hk : tb.Keyed) (a : List RowKey) : (tb.delete a).Keyed := by
  refine ⟨?_, ?_, ?_, ?_⟩
  · refine hk.tasks.sublist (Rows.filterMap_sublist ?_ _)
    intro t t' h
    split at h
    · cases h
    · cases h
      rfl
  · refine hk.workflows.sublist (Rows.filterMap_sublist ?_ _)
    intro e e' h
    split at h
    · cases h
    · cases h
      rfl
  · exact hk.graphs.sublist (List.filter_sublist.map _)
  · exact hk.dispatches.sublist (List.filter_sublist.map _)

theorem plan_mem_collect {w : Workflow} : RowKey.plan w ∈ tb.collect a ↔ RowKey.plan w ∈ a := by
  simp [collect]

/-- Deleting rows a queryset selects takes them, and only them, off its selection. -/
structure Steady (queryset : Tables → List RowKey) (tb : Tables) : Prop where
  nodup : (queryset tb).Nodup
  delete : ∀ ks, ks ⊆ queryset tb →
    queryset (tb.delete ks) = (queryset tb).filter fun k => k ∉ ks

theorem Steady.next {queryset : Tables → List RowKey} (h : Steady queryset tb)
    (ha : a ⊆ queryset tb) : Steady queryset (tb.delete a) := by
  have hsel := h.delete a ha
  refine ⟨hsel ▸ h.nodup.filter _, ?_⟩
  intro ks hks
  rw [hsel] at hks ⊢
  have hsub : a ++ ks ⊆ queryset tb := by
    intro k hk
    rcases List.mem_append.mp hk with hk | hk
    · exact ha hk
    · exact List.mem_of_mem_filter (hks hk)
  rw [delete_delete, h.delete _ hsub, List.filter_filter]
  apply List.filter_congr
  intro k _
  simp [Bool.and_comm]

/-- The batches of a pass come to the first rows it selected, up to the ceiling. -/
theorem deleteInBatches_eq {queryset : Tables → List RowKey} (h : Steady queryset tb)
    (batchSize rounds : Nat) : tb.deleteInBatches queryset batchSize rounds =
      (tb.delete ((queryset tb).take (rounds * batchSize)),
        ((queryset tb).take (rounds * batchSize)).length) := by
  induction rounds generalizing tb with
  | zero => simp [deleteInBatches]
  | succ rounds ih =>
    simp only [deleteInBatches, filter_mem_take h.nodup]
    by_cases hids : (queryset tb).take batchSize = []
    · have hall : (queryset tb).take ((rounds + 1) * batchSize) = [] := by
        rcases List.take_eq_nil_iff.mp hids with hz | hz
        · simp [hz]
        · simp [hz]
      simp [hids, hall]
    · rw [if_neg hids, if_neg hids]
      have hsub : (queryset tb).take batchSize ⊆ queryset tb := List.take_subset _ _
      have hsplit : (queryset tb).take ((rounds + 1) * batchSize) =
          (queryset tb).take batchSize ++ ((queryset tb).drop batchSize).take (rounds * batchSize) := by
        rw [Nat.succ_mul, Nat.add_comm, List.take_add]
      rw [ih (h.next hsub), h.delete _ hsub, filter_not_mem_take h.nodup, delete_delete, hsplit,
        List.length_append]

/-- No deleted row takes a live task along. -/
def Spares (tb : Tables) (ks : List RowKey) : Prop :=
  ∀ t ∈ tb.tasks, t.liveMember = true → t.reached ks = false

theorem Spares.append (ha : tb.Spares a) (hb : (tb.delete a).Spares b) : tb.Spares (a ++ b) := by
  intro t ht hl
  rw [t.reached_append, ha t ht hl, Bool.false_or]
  exact hb _ (mem_delete_tasks.mpr ⟨t, ht, ha t ht hl, rfl⟩) hl

/-- The live tasks found by a column that keeps its value are those there were. -/
theorem Spares.all (h : tb.Spares a) {p : QraftTask → Bool} (hp : ∀ t, p (t.unlink a) = p t) :
    ((tb.delete a).tasks.all fun t => !(p t && t.liveMember)) =
      tb.tasks.all fun t => !(p t && t.liveMember) := by
  rw [Bool.eq_iff_iff]
  simp only [List.all_eq_true, Bool.not_eq_true', Bool.and_eq_false_iff]
  constructor
  · intro hall t ht
    by_cases hl : t.liveMember = true
    · have hkept := hall _ (mem_delete_tasks.mpr ⟨t, ht, h t ht hl, rfl⟩)
      rwa [hp, QraftTask.unlink_liveMember] at hkept
    · exact .inr (Bool.not_eq_true _ ▸ hl)
  · intro hall r hr
    obtain ⟨t, ht, -, rfl⟩ := mem_delete_tasks.mp hr
    rw [hp, QraftTask.unlink_liveMember]
    exact hall t ht

section
variable {cutoff : Time} {openGraphs : List GraphId} {model : Workflow → Bool}

theorem mem_sweptWorkflows {k : RowKey} : k ∈ sweptWorkflows cutoff openGraphs model tb ↔
    ∃ e ∈ tb.workflows, k = .plan e.workflow ∧ model e.workflow = true ∧ e.row.status.Terminal ∧
      e.row.dateUpdated < cutoff ∧ (∀ g, e.row.graphId = some g → g ∉ openGraphs) ∧
      ∀ t ∈ tb.tasks, t.workflow = some e.workflow → t.liveMember = false := by
  simp only [sweptWorkflows, List.mem_map, List.mem_filter, Bool.and_eq_true, decide_eq_true_eq,
    Bool.not_eq_true', Option.any_eq_false, decide_eq_false_iff_not, List.all_eq_true,
    Bool.and_eq_false_iff, ← imp_iff_not_or]
  constructor
  · rintro ⟨e, ⟨he, ⟨⟨⟨hm, hs⟩, hd⟩, hg⟩, hl⟩, rfl⟩
    exact ⟨e, he, rfl, hm, hs, hd, hg, hl⟩
  · rintro ⟨e, he, rfl, hm, hs, hd, hg, hl⟩
    exact ⟨e, ⟨he, ⟨⟨⟨hm, hs⟩, hd⟩, hg⟩, hl⟩, rfl⟩

theorem mem_sweptTasks {live : List Workflow} {k : RowKey} :
    k ∈ sweptTasks cutoff openGraphs live tb ↔
      ∃ t ∈ tb.tasks, k = .task t.id ∧ t.status.Terminal ∧ t.dateUpdated < cutoff ∧
        (∀ w, t.workflow = some w → w ∉ live) ∧ ∀ g, t.graphId = some g → g ∉ openGraphs := by
  simp only [sweptTasks, List.mem_map, List.mem_filter, Bool.and_eq_true, decide_eq_true_eq,
    Bool.not_eq_true', Option.any_eq_false, decide_eq_false_iff_not]
  constructor
  · rintro ⟨t, ⟨ht, ⟨⟨hs, hd⟩, hw⟩, hg⟩, rfl⟩
    exact ⟨t, ht, rfl, hs, hd, hw, hg⟩
  · rintro ⟨t, ht, rfl, hs, hd, hw, hg⟩
    exact ⟨t, ⟨ht, ⟨⟨hs, hd⟩, hw⟩, hg⟩, rfl⟩

theorem mem_sweptGraphs {k : RowKey} : k ∈ sweptGraphs cutoff tb ↔
    ∃ g ∈ tb.graphs, k = .plan (.graph g.id) ∧ g.status.Terminal ∧ g.dateUpdated < cutoff ∧
      (∀ t ∈ tb.tasks, t.graphId = some g.id → t.liveMember = false) ∧
      ∀ r ∈ tb.settlements, r.1 = g.id → tb.delivered r = true := by
  simp only [sweptGraphs, List.mem_map, List.mem_filter, Bool.and_eq_true, decide_eq_true_eq,
    Bool.not_eq_true', List.all_eq_true, Bool.and_eq_false_iff, decide_eq_false_iff_not,
    Bool.or_eq_true, ← imp_iff_not_or]
  constructor
  · rintro ⟨g, ⟨hg, ⟨⟨hs, hd⟩, hl⟩, hp⟩, rfl⟩
    exact ⟨g, hg, rfl, hs, hd, hl, hp⟩
  · rintro ⟨g, hg, rfl, hs, hd, hl, hp⟩
    exact ⟨g, ⟨hg, ⟨⟨hs, hd⟩, hl⟩, hp⟩, rfl⟩

/-- What the workflow and task passes delete: no graph, and nothing that takes a live task along. -/
structure Plain (tb : Tables) (ks : List RowKey) : Prop where
  spares : tb.Spares ks
  graphs : ∀ g, RowKey.plan (.graph g) ∉ ks
  dispatches : ∀ id, RowKey.dispatch id ∉ ks

theorem Plain.append (ha : tb.Plain a) (hb : (tb.delete a).Plain b) : tb.Plain (a ++ b) := by
  refine ⟨ha.spares.append hb.spares, ?_, ?_⟩
  · intro g hg
    exact (List.mem_append.mp hg).elim (ha.graphs g) (hb.graphs g)
  · intro id hid
    exact (List.mem_append.mp hid).elim (ha.dispatches id) (hb.dispatches id)

theorem Plain.sweptWorkflows (h : tb.Plain a) :
    sweptWorkflows cutoff openGraphs model (tb.delete a) =
      (sweptWorkflows cutoff openGraphs model tb).filter fun k => k ∉ a := by
  have hunlink (e : WorkflowEntry) : ({ e with row := { e.row with
      graphId := e.row.graphId.filter fun g => RowKey.plan (.graph g) ∉ a } } : WorkflowEntry) = e := by
    rw [filter_kept fun g _ => decide_eq_true (h.graphs g)]
  have hrows : (tb.delete a).workflows = tb.workflows.filter fun e => RowKey.plan e.workflow ∉ a := by
    rw [← List.filterMap_eq_filter]
    apply List.filterMap_congr
    intro e _
    rw [hunlink]
    by_cases he : RowKey.plan e.workflow ∈ a
    · simp [he, Option.guard]
    · simp [he, Option.guard]
  simp only [Tables.sweptWorkflows, hrows, List.filter_filter, List.filter_map]
  congr 1
  apply List.filter_congr
  intro e _
  by_cases he : RowKey.plan e.workflow ∈ a
  · simp [he]
  · have hlive := h.spares.all (p := fun t => decide (t.workflow = some e.workflow)) fun t => by
      simp [t.unlink_workflow_eq_some, he]
    simp only [he, hlive, Function.comp_apply, not_false_eq_true, decide_true, Bool.and_true,
      Bool.true_and]

theorem sweptGraphs_delete (h : tb.Spares a) (hd : ∀ id, RowKey.dispatch id ∉ a) :
    sweptGraphs cutoff (tb.delete a) = (sweptGraphs cutoff tb).filter fun k => k ∉ a := by
  have hdisp : (tb.delete a).dispatches = tb.dispatches :=
    List.filter_eq_self.mpr fun d _ => decide_eq_true (hd d.id)
  have hgraphs : (tb.delete a).graphs = tb.graphs.filter fun g => RowKey.plan (.graph g.id) ∉ a := rfl
  simp only [sweptGraphs, hgraphs, List.filter_filter, List.filter_map]
  congr 1
  apply List.filter_congr
  intro g _
  by_cases he : RowKey.plan (.graph g.id) ∈ a
  · simp [he]
  · have hlive := h.all (p := fun t => decide (t.graphId = some g.id)) fun t => by
      simp [t.unlink_graphId_eq_some, he]
    have hset : ((tb.delete a).settlements.all fun r => decide (r.1 ≠ g.id) || (tb.delete a).delivered r) =
        tb.settlements.all fun r => decide (r.1 ≠ g.id) || tb.delivered r := by
      rw [Bool.eq_iff_iff]
      simp only [delivered, hdisp]
      simp only [delete, List.all_eq_true, List.mem_filter, decide_eq_true_eq]
      constructor
      · intro hall r hr
        by_cases hrg : r.1 = g.id
        · exact hall r ⟨hr, hrg ▸ he⟩
        · simp [hrg]
      · exact fun hall r hr => hall r hr.1
    simp only [he, hlive, hset, Function.comp_apply, not_false_eq_true, decide_true, Bool.and_true,
      Bool.true_and]

theorem Plain.sweptGraphs (h : tb.Plain a) :
    sweptGraphs cutoff (tb.delete a) = sweptGraphs cutoff tb := by
  rw [sweptGraphs_delete h.spares h.dispatches, List.filter_eq_self.mpr]
  intro k hk
  obtain ⟨g, -, rfl, -⟩ := mem_sweptGraphs.mp hk
  exact decide_eq_true (h.graphs g.id)

/-- Rows of one kind of workflow are no rows of another. -/
theorem Plain.other (h : tb.Plain a) (ha : ∀ w, RowKey.plan w ∈ a → model w = false) :
    Tables.sweptWorkflows cutoff openGraphs model (tb.delete a) =
      Tables.sweptWorkflows cutoff openGraphs model tb := by
  rw [h.sweptWorkflows, List.filter_eq_self.mpr]
  intro k hk
  obtain ⟨e, -, rfl, he, -⟩ := mem_sweptWorkflows.mp hk
  rw [decide_eq_true_eq]
  intro hmem
  rw [ha _ hmem] at he
  cases he

theorem Plain.of_workflows (hm : ∀ g, model (.graph g) = false)
    (ha : a ⊆ Tables.sweptWorkflows cutoff openGraphs model tb) : tb.Plain a := by
  have hgraphs : ∀ g, RowKey.plan (.graph g) ∉ a := by
    intro g hg
    obtain ⟨e, -, he, hme, -⟩ := mem_sweptWorkflows.mp (ha hg)
    rw [← RowKey.plan.inj he, hm] at hme
    cases hme
  refine ⟨?_, hgraphs, ?_⟩
  · intro t ht hl
    rw [← Bool.not_eq_true, t.reached_iff]
    rintro (hk | ⟨w, hw, -, hk⟩ | ⟨-, g, -, hk⟩)
    · obtain ⟨e, -, he, -⟩ := mem_sweptWorkflows.mp (ha hk)
      cases he
    · obtain ⟨e, -, he, -, -, -, -, hlive⟩ := mem_sweptWorkflows.mp (ha hk)
      rw [hlive t ht (RowKey.plan.inj he ▸ hw)] at hl
      cases hl
    · exact hgraphs g hk
  · intro id hid
    obtain ⟨e, -, he, -⟩ := mem_sweptWorkflows.mp (ha hid)
    cases he

theorem Keyed.plain_tasks (hk : tb.Keyed) {live : List Workflow}
    (ha : a ⊆ sweptTasks cutoff openGraphs live tb) : tb.Plain a := by
  have hplan (w : Workflow) : RowKey.plan w ∉ a := by
    intro hw
    obtain ⟨t, -, he, -⟩ := mem_sweptTasks.mp (ha hw)
    cases he
  refine ⟨?_, fun g => hplan _, ?_⟩
  · intro t ht hl
    rw [← Bool.not_eq_true, t.reached_iff]
    rintro (hmem | ⟨w, -, -, hmem⟩ | ⟨-, g, -, hmem⟩)
    · obtain ⟨u, hu, he, hs, -⟩ := mem_sweptTasks.mp (ha hmem)
      obtain rfl := Rows.eq_of_key_eq hk.tasks ht hu (RowKey.task.inj he)
      simp only [QraftTask.liveMember, Bool.or_eq_true, decide_eq_true_eq] at hl
      rcases hl with hl | hl <;> rw [hl] at hs <;> exact absurd hs (by decide)
    · exact hplan w hmem
    · exact hplan _ hmem
  · intro id hid
    obtain ⟨t, -, he, -⟩ := mem_sweptTasks.mp (ha hid)
    cases he

theorem Keyed.steady_workflows (hk : tb.Keyed) (hm : ∀ g, model (.graph g) = false) :
    Steady (sweptWorkflows cutoff openGraphs model) tb := by
  refine ⟨?_, ?_⟩
  · have hn := hk.workflows.map (fun _ _ h => RowKey.plan.inj h)
    rw [List.map_map] at hn
    exact hn.sublist (List.filter_sublist.map _)
  · intro ks hks
    exact (Plain.of_workflows hm hks).sweptWorkflows

theorem Keyed.steady_graphs (hk : tb.Keyed) : Steady (sweptGraphs cutoff) tb := by
  refine ⟨?_, ?_⟩
  · have hinj : Function.Injective fun g : GraphId => RowKey.plan (.graph g) := by
      intro g g' h
      exact Workflow.graph.inj (RowKey.plan.inj h)
    have hn := hk.graphs.map hinj
    rw [List.map_map] at hn
    exact hn.sublist (List.filter_sublist.map _)
  · intro ks hks
    apply sweptGraphs_delete
    · intro t ht hl
      rw [← Bool.not_eq_true, t.reached_iff]
      rintro (hmem | ⟨w, hw, hc, hmem⟩ | ⟨-, g, hg, hmem⟩)
      · obtain ⟨g, -, he, -⟩ := mem_sweptGraphs.mp (hks hmem)
        cases he
      · obtain ⟨g, -, he, -⟩ := mem_sweptGraphs.mp (hks hmem)
        cases RowKey.plan.inj he
        cases hc
      · obtain ⟨g', -, he, -, -, hlive, -⟩ := mem_sweptGraphs.mp (hks hmem)
        cases RowKey.plan.inj he
        rw [hlive t ht hg] at hl
        cases hl
    · intro id hmem
      obtain ⟨g, -, he, -⟩ := mem_sweptGraphs.mp (hks hmem)
      cases he

theorem Keyed.steady_tasks (hk : tb.Keyed) {live : List Workflow} :
    Steady (sweptTasks cutoff openGraphs live) tb := by
  refine ⟨?_, ?_⟩
  · have hn := hk.tasks.map (fun _ _ h => RowKey.task.inj h)
    rw [List.map_map] at hn
    exact hn.sublist (List.filter_sublist.map _)
  · intro ks hks
    have hplan (w : Workflow) : RowKey.plan w ∉ ks := by
      intro hw
      obtain ⟨t, -, he, -⟩ := mem_sweptTasks.mp (hks hw)
      cases he
    have hrows : (tb.delete ks).tasks = tb.tasks.filter fun t => RowKey.task t.id ∉ ks := by
      rw [← List.filterMap_eq_filter]
      apply List.filterMap_congr
      intro t _
      have hunlink : t.unlink ks = t := by
        simp [QraftTask.unlink, filter_kept, hplan]
      have hreach : t.reached ks = decide (RowKey.task t.id ∈ ks) := by
        simp [QraftTask.reached, hplan]
      rw [hreach, hunlink]
      by_cases ht : RowKey.task t.id ∈ ks
      · simp [ht, Option.guard]
      · simp [ht, Option.guard]
    simp only [sweptTasks, hrows, List.filter_filter, List.filter_map]
    congr 1
    apply List.filter_congr
    intro t _
    simp [Bool.and_comm]

theorem Keyed.steady_dispatches (hk : tb.Keyed) : Steady (sweptDispatches cutoff) tb := by
  refine ⟨?_, ?_⟩
  · have hn := hk.dispatches.map (fun _ _ h => RowKey.dispatch.inj h)
    rw [List.map_map] at hn
    exact hn.sublist (List.filter_sublist.map _)
  · intro ks hks
    have hplan (w : Workflow) : RowKey.plan w ∉ ks := by
      intro hw
      obtain ⟨d, -, he⟩ := List.mem_map.mp (hks hw)
      cases he
    have hgraphs : (tb.delete ks).graphs = tb.graphs :=
      List.filter_eq_self.mpr fun g _ => decide_eq_true (hplan _)
    have hrows : (tb.delete ks).dispatches = tb.dispatches.filter fun d => RowKey.dispatch d.id ∉ ks := rfl
    simp only [sweptDispatches, hgraphs, hrows, List.filter_filter, List.filter_map]
    congr 1
    apply List.filter_congr
    intro d _
    simp [Bool.and_comm]

end

end Tables

namespace RetentionSettings

/-- The rows a pass comes to before the ceiling on its batches. -/
def taken (c : RetentionSettings) (queryset : Tables → List RowKey) (tb : Tables) : List RowKey :=
  (queryset tb).take (Tables.maxBatches * c.batchSize)

/-- Whether a task hangs off a row of a pass that takes its tasks along. -/
def TakesAlong (c : RetentionSettings) (cutoff : Time) (tb : Tables) (t : QraftTask) : Prop :=
  (∃ w, t.workflow = some w ∧
    (.plan w ∈ c.taken (Tables.sweptWorkflows cutoff tb.openGraphIds Tables.iterModel) tb ∨
      .plan w ∈ c.taken (Tables.sweptWorkflows cutoff tb.openGraphIds Tables.batchModel) tb)) ∨
  (t.graphNode ≠ none ∧ ∃ g, t.graphId = some g ∧
    .plan (.graph g) ∈ c.taken (Tables.sweptGraphs cutoff) tb)

theorem taken_subset (c : RetentionSettings) (queryset : Tables → List RowKey) (tb : Tables) :
    c.taken queryset tb ⊆ queryset tb := List.take_subset _ _

end RetentionSettings

namespace Tables
variable {tb : Tables} {a b : List RowKey} {c : RetentionSettings} {cutoff : Time}
  {openGraphs : List GraphId} {model : Workflow → Bool}

theorem sweepPass_fst {queryset : Tables → List RowKey} {name : String}
    {acc : Tables × List (String × Nat)} (h : Steady queryset acc.1) :
    (sweepPass c.batchSize name queryset acc).1 = acc.1.delete (c.taken queryset acc.1) := by
  rw [sweepPass, deleteInBatches_eq h, RetentionSettings.taken]

theorem model_of_taken {w : Workflow}
    (h : .plan w ∈ c.taken (sweptWorkflows cutoff openGraphs model) tb) : model w = true := by
  obtain ⟨e, -, he, hm, -⟩ := mem_sweptWorkflows.mp (c.taken_subset _ _ h)
  rwa [RowKey.plan.inj he]

/-- What a pass over one kind of workflow deletes after other kinds went. -/
theorem Plain.taken (h : tb.Plain a) (ha : ∀ w, RowKey.plan w ∈ a → model w = false)
    (hm : ∀ g, model (.graph g) = false) :
    c.taken (Tables.sweptWorkflows cutoff openGraphs model) (tb.delete a) =
        c.taken (Tables.sweptWorkflows cutoff openGraphs model) tb ∧
      tb.Plain (a ++ c.taken (Tables.sweptWorkflows cutoff openGraphs model) tb) := by
  have hsame : c.taken (Tables.sweptWorkflows cutoff openGraphs model) (tb.delete a) =
      c.taken (Tables.sweptWorkflows cutoff openGraphs model) tb := by
    rw [RetentionSettings.taken, RetentionSettings.taken, h.other ha]
  refine ⟨hsame, h.append ?_⟩
  rw [← hsame]
  exact Plain.of_workflows hm (c.taken_subset _ _)

/-- What the passes delete together. -/
theorem Keyed.prune_eq (hk : tb.Keyed) (c : RetentionSettings) (cutoff : Time) : ∃ tasks dispatches,
    (tb.prune c cutoff).1 = tb.delete (c.taken (sweptWorkflows cutoff tb.openGraphIds chainModel) tb ++
      c.taken (sweptWorkflows cutoff tb.openGraphIds iterModel) tb ++
      c.taken (sweptWorkflows cutoff tb.openGraphIds batchModel) tb ++
      tasks ++ c.taken (sweptGraphs cutoff) tb ++ dispatches) ∧
    (∀ k ∈ tasks, ∃ t ∈ tb.tasks, k = .task t.id ∧ t.dateUpdated < cutoff) ∧
    ∀ k ∈ dispatches, ∃ id, k = .dispatch id := by
  have hchains : ∀ w, RowKey.plan w ∈ c.taken (sweptWorkflows cutoff tb.openGraphIds chainModel) tb →
      iterModel w = false ∧ batchModel w = false := by
    intro w hw
    have hm := model_of_taken hw
    cases w with
    | chain id => exact ⟨rfl, rfl⟩
    | _ => cases hm
  have hiters : ∀ w, RowKey.plan w ∈ c.taken (sweptWorkflows cutoff tb.openGraphIds iterModel) tb →
      batchModel w = false := by
    intro w hw
    have hm := model_of_taken hw
    cases w with
    | iter id => rfl
    | _ => cases hm
  have hp₁ : tb.Plain (c.taken (sweptWorkflows cutoff tb.openGraphIds chainModel) tb) :=
    Plain.of_workflows (fun _ => rfl) (c.taken_subset _ tb)
  obtain ⟨he₂, hp₂⟩ : c.taken (sweptWorkflows cutoff tb.openGraphIds iterModel) (tb.delete _) = _ ∧ _ :=
    hp₁.taken (fun w hw => (hchains w hw).1) fun _ => rfl
  obtain ⟨he₃, hp₃⟩ : c.taken (sweptWorkflows cutoff tb.openGraphIds batchModel) (tb.delete _) = _ ∧ _ :=
    hp₂.taken (fun w hw => (List.mem_append.mp hw).elim (fun h => (hchains w h).2) (hiters w)) fun _ => rfl
  simp only [prune]
  have h₁ : (sweepPass c.batchSize "QraftChainModel"
      (sweptWorkflows cutoff tb.openGraphIds chainModel) (tb, [])).1 = _ :=
    sweepPass_fst (hk.steady_workflows fun _ => rfl)
  generalize sweepPass c.batchSize "QraftChainModel" _ (tb, []) = acc at h₁ ⊢
  have hs₂ : Steady (sweptWorkflows cutoff tb.openGraphIds iterModel) acc.1 :=
    h₁ ▸ (hk.delete _).steady_workflows fun _ => rfl
  have h₂ : (sweepPass c.batchSize "QraftIterModel" _ acc).1 = _ := sweepPass_fst hs₂
  rw [h₁, he₂, delete_delete] at h₂
  generalize sweepPass c.batchSize "QraftIterModel" _ acc = acc at h₂ ⊢
  have hs₃ : Steady (sweptWorkflows cutoff tb.openGraphIds batchModel) acc.1 :=
    h₂ ▸ (hk.delete _).steady_workflows fun _ => rfl
  have h₃ : (sweepPass c.batchSize "QraftBatchModel" _ acc).1 = _ := sweepPass_fst hs₃
  rw [h₂, he₃, delete_delete] at h₃
  generalize sweepPass c.batchSize "QraftBatchModel" _ acc = acc at h₃ ⊢
  have hk₃ : acc.1.Keyed := h₃ ▸ hk.delete _
  generalize acc.1.liveWorkflows = live
  have hs₄ : Steady (sweptTasks cutoff tb.openGraphIds live) acc.1 := hk₃.steady_tasks
  have h₄ : (sweepPass c.batchSize "QraftTask" _ acc).1 = _ := sweepPass_fst hs₄
  have hsub := c.taken_subset (sweptTasks cutoff tb.openGraphIds live) acc.1
  generalize c.taken (sweptTasks cutoff tb.openGraphIds live) acc.1 = tasks at h₄ hsub
  have hp₄ := hp₃.append (h₃ ▸ hk₃.plain_tasks hsub)
  have hold : ∀ k ∈ tasks, ∃ t ∈ tb.tasks, k = .task t.id ∧ t.dateUpdated < cutoff := by
    intro k hkm
    obtain ⟨r, hr, rfl, -, hd, -⟩ := mem_sweptTasks.mp (hsub hkm)
    rw [h₃] at hr
    obtain ⟨t, ht, -, rfl⟩ := mem_delete_tasks.mp hr
    exact ⟨t, ht, rfl, hd⟩
  rw [h₃, delete_delete] at h₄
  generalize sweepPass c.batchSize "QraftTask" _ acc = acc at h₄ ⊢
  have hs₅ : Steady (sweptGraphs cutoff) acc.1 := h₄ ▸ (hk.delete _).steady_graphs
  have h₅ : (sweepPass c.batchSize "QraftGraph" _ acc).1 = _ := sweepPass_fst hs₅
  rw [RetentionSettings.taken, h₄, hp₄.sweptGraphs, ← RetentionSettings.taken, delete_delete] at h₅
  generalize sweepPass c.batchSize "QraftGraph" _ acc = acc at h₅ ⊢
  have hs₆ : Steady (sweptDispatches cutoff) acc.1 := h₅ ▸ (hk.delete _).steady_dispatches
  have h₆ : (sweepPass c.batchSize "WorkflowHookDispatch" _ acc).1 = _ := sweepPass_fst hs₆
  refine ⟨tasks, c.taken (sweptDispatches cutoff) acc.1, ?_, hold, ?_⟩
  · rw [h₆, h₅, delete_delete]
  · intro k hkm
    obtain ⟨d, -, rfl⟩ := List.mem_map.mp (c.taken_subset _ _ hkm)
    exact ⟨d.id, rfl⟩

/-- Of the tasks inside the window, a sweep deletes those that a workflow or a graph takes along. -/
theorem Keyed.survives_prune (hk : tb.Keyed) {t : QraftTask} (ht : t ∈ tb.tasks)
    (hd : cutoff ≤ t.dateUpdated) :
    (tb.prune c cutoff).1.Survives t ↔ ¬ c.TakesAlong cutoff tb t := by
  obtain ⟨tasks, dispatches, he, htasks, hdisp⟩ := hk.prune_eq c cutoff
  rw [he, hk.survives_delete ht, ← Bool.not_eq_true, not_iff_not, t.reached_iff]
  have hnot : ∀ w, RowKey.plan w ∉ tasks ∧ RowKey.plan w ∉ dispatches := by
    intro w
    constructor
    · intro hw
      obtain ⟨u, -, h, -⟩ := htasks _ hw
      cases h
    · intro hw
      obtain ⟨id, h⟩ := hdisp _ hw
      cases h
  have hself : RowKey.task t.id ∉ tasks := by
    intro hmem
    obtain ⟨u, hu, h, hold⟩ := htasks _ hmem
    obtain rfl := Rows.eq_of_key_eq hk.tasks ht hu (RowKey.task.inj h)
    exact absurd hold (Nat.not_lt.mpr hd)
  have hkinds {w : Workflow} {model : Workflow → Bool}
      (h : RowKey.plan w ∈ c.taken (sweptWorkflows cutoff tb.openGraphIds model) tb) : model w = true :=
    model_of_taken h
  have hgraphs {w : Workflow} (h : RowKey.plan w ∈ c.taken (sweptGraphs cutoff) tb) :
      ∃ g, w = .graph g := by
    obtain ⟨g, -, hg, -⟩ := mem_sweptGraphs.mp (c.taken_subset _ _ h)
    exact ⟨g.id, RowKey.plan.inj hg⟩
  have hrow : ∀ model, RowKey.task t.id ∉ c.taken (sweptWorkflows cutoff tb.openGraphIds model) tb := by
    intro model hmem
    obtain ⟨e, -, h, -⟩ := mem_sweptWorkflows.mp (c.taken_subset _ _ hmem)
    cases h
  have hrow' : RowKey.task t.id ∉ c.taken (sweptGraphs cutoff) tb := by
    intro hmem
    obtain ⟨g, -, h, -⟩ := mem_sweptGraphs.mp (c.taken_subset _ _ hmem)
    cases h
  have hrow'' : RowKey.task t.id ∉ dispatches := by
    intro hmem
    obtain ⟨id, h⟩ := hdisp _ hmem
    cases h
  simp only [List.mem_append, hnot, hself, hrow, hrow', hrow'', RetentionSettings.TakesAlong, or_false,
    false_or]
  constructor
  · rintro (⟨w, hw, hc, ((hmem | hmem) | hmem) | hmem⟩ | ⟨hn, g, hg, ((hmem | hmem) | hmem) | hmem⟩)
    · have hm := hkinds hmem
      cases w with
      | chain id => cases hc
      | _ => cases hm
    · exact .inl ⟨w, hw, .inl hmem⟩
    · exact .inl ⟨w, hw, .inr hmem⟩
    · obtain ⟨g, rfl⟩ := hgraphs hmem
      cases hc
    · cases hkinds hmem
    · cases hkinds hmem
    · cases hkinds hmem
    · exact .inr ⟨hn, g, hg, hmem⟩
  · rintro (⟨w, hw, hmem | hmem⟩ | ⟨hn, g, hg, hmem⟩)
    · have hm := hkinds hmem
      cases w with
      | iter id => exact .inl ⟨_, hw, rfl, .inl (.inl (.inr hmem))⟩
      | _ => cases hm
    · have hm := hkinds hmem
      cases w with
      | batch id => exact .inl ⟨_, hw, rfl, .inl (.inr hmem)⟩
      | _ => cases hm
    · exact .inr ⟨hn, g, hg, .inr hmem⟩

/-- A settled task that fewer than `n` settled ones are newer than. -/
def Newest (tb : Tables) (n : Nat) (t : QraftTask) : Prop :=
  t.status.Terminal ∧
    (tb.tasks.filter fun u => u.status.Terminal && t.dateUpdated < u.dateUpdated).length < n

theorem Newest.kept {n : Nat} {t : QraftTask} (h : tb.Newest n t) (hc : tb.countCutoff n = some cutoff) :
    cutoff ≤ t.dateUpdated := by
  by_contra hlt
  rw [not_le] at hlt
  let dates := (tb.tasks.filter fun u => u.status.Terminal).map fun u => u.dateUpdated
  let sorted := dates.insertionSort (· ≥ ·)
  have hsorted : sorted.Pairwise (· ≥ ·) := List.pairwise_insertionSort _ _
  obtain ⟨hlen, hget⟩ := List.getElem?_eq_some_iff.mp hc
  have hn : n - 1 < sorted.length := hlen
  have hpos : 0 < n := Nat.lt_of_le_of_lt (Nat.zero_le _) h.2
  -- The first `n` dates are all at or after the cutoff.
  have hfirst : ∀ d ∈ sorted.take n, t.dateUpdated < d := by
    intro d hd
    obtain ⟨i, hi, rfl⟩ := List.mem_take_iff_getElem.mp hd
    have hle : sorted[n - 1] ≤ sorted[i] := by
      rcases Nat.lt_or_ge i (n - 1) with hi' | hi'
      · exact List.pairwise_iff_getElem.mp hsorted i (n - 1) _ hn hi'
      · have hieq : i = n - 1 := by omega
        exact le_of_eq (by congr 1; exact hieq.symm)
    exact lt_of_lt_of_le hlt (hget ▸ hle)
  have hcount : n ≤ sorted.countP fun d => t.dateUpdated < d := by
    have htake : (sorted.take n).length = n := by
      rw [List.length_take]
      omega
    calc n = (sorted.take n).countP fun d => t.dateUpdated < d := by
          rw [List.countP_eq_length.mpr fun d hd => decide_eq_true (hfirst d hd), htake]
      _ ≤ sorted.countP fun d => t.dateUpdated < d := (List.take_sublist n sorted).countP_le
  have hperm : sorted.countP (fun d => t.dateUpdated < d) = dates.countP fun d => t.dateUpdated < d :=
    (List.perm_insertionSort _ dates).countP_eq _
  have hnew : (tb.tasks.filter fun u => u.status.Terminal && t.dateUpdated < u.dateUpdated).length =
      dates.countP fun d => t.dateUpdated < d := by
    rw [← List.countP_eq_length_filter, List.countP_map, List.countP_filter]
    apply List.countP_congr
    intro u _
    simp [and_comm]
  have := h.2
  omega

/-- A sweep keeps every task inside its window, and under a count bound alone the newest. -/
structure RespectsWindow (tb : Tables) (conf args : RetentionSettings) (now : Time) : Prop where
  cutoff : ∀ cutoff, (conf.override args).cutoff now tb = some cutoff → ∀ t ∈ tb.tasks,
    cutoff ≤ t.dateUpdated → (tb.sweepRetention conf args now).1.Survives t
  newest : (conf.override args).days = none → ∀ n, (conf.override args).maxTasks = some n →
    ∀ t ∈ tb.tasks, tb.Newest n t → (tb.sweepRetention conf args now).1.Survives t

/-- A sweep respects its window exactly when no workflow or graph that it takes the tasks of has one
inside. -/
theorem window_respected (hk : tb.Keyed) (conf args : RetentionSettings) (now : Time) :
    tb.RespectsWindow conf args now ↔
      ∀ cutoff, (conf.override args).cutoff now tb = some cutoff → ∀ t ∈ tb.tasks,
        cutoff ≤ t.dateUpdated → ¬ (conf.override args).TakesAlong cutoff tb t := by
  have hpruned {cutoff : Time} (hcut : (conf.override args).cutoff now tb = some cutoff) :
      (tb.sweepRetention conf args now).1 = (tb.prune (conf.override args) cutoff).1 := by
    rw [sweepRetention, hcut]
  constructor
  · intro h cutoff hcut t ht hd
    have hs := h.cutoff cutoff hcut t ht hd
    rw [hpruned hcut] at hs
    exact (hk.survives_prune ht hd).mp hs
  · intro hnone
    have hwindow : ∀ cutoff, (conf.override args).cutoff now tb = some cutoff → ∀ t ∈ tb.tasks,
        cutoff ≤ t.dateUpdated → (tb.sweepRetention conf args now).1.Survives t := by
      intro cutoff hcut t ht hd
      rw [hpruned hcut]
      exact (hk.survives_prune ht hd).mpr (hnone cutoff hcut t ht hd)
    refine ⟨hwindow, ?_⟩
    intro hdays n hn t ht hnew
    cases hcut : (conf.override args).cutoff now tb with
    | none =>
      rw [sweepRetention, hcut]
      exact ⟨t, ht, rfl⟩
    | some cutoff =>
      refine hwindow cutoff hcut t ht (hnew.kept ?_)
      cases hcount : tb.countCutoff n with
      | none => simp [RetentionSettings.cutoff, hdays, hn, hcount] at hcut
      | some d =>
        simp only [RetentionSettings.cutoff, hdays, hn, hcount, Option.map_none, Option.toList_none,
          Option.bind_some, Option.toList_some, List.nil_append] at hcut
        exact hcut

/-- An iter cancelled long before its last member finished. -/
def lateMember : Tables where
  tasks := [{ id := 0, status := .succeeded, func := "work", workflow := some (.iter 0), dateUpdated := 90 }]
  workflows := [⟨.iter 0, { status := .cancelled, settledAt := some 5, dateUpdated := 5 }⟩]

private theorem lateMember_keyed : lateMember.Keyed := by
  refine ⟨?_, ?_, ?_, ?_⟩ <;> simp [lateMember]

theorem window_respected_lateMember : lateMember.RespectsWindow { retentionMaxTasks := some 1 } {} 100 ↔
    ∀ cutoff, ({ retentionMaxTasks := some 1 } : RetentionSettings).cutoff 100 lateMember = some cutoff →
      ∀ t ∈ lateMember.tasks, cutoff ≤ t.dateUpdated →
        ¬ ({ retentionMaxTasks := some 1 } : RetentionSettings).TakesAlong cutoff lateMember t :=
  window_respected lateMember_keyed { retentionMaxTasks := some 1 } {} 100

/-- A sweep that is to keep one task deletes the only one there is. -/
theorem window_missed : ¬ ∀ tb : Tables, tb.Keyed → ∀ (conf args : RetentionSettings) (now : Time),
    tb.RespectsWindow conf args now := by
  intro h
  have hgone : (lateMember.sweepRetention { retentionMaxTasks := some 1 } {} 100).1.tasks = [] := by decide
  have hr := h lateMember lateMember_keyed { retentionMaxTasks := some 1 } {} 100
  obtain ⟨r, hr, -⟩ := hr.newest rfl 1 rfl _ List.mem_cons_self ⟨by decide, by decide⟩
  rw [hgone] at hr
  cases hr

end Tables
end Qraft
