import Qraft.Retention.Effects

/-! What a sweep deletes while work settles and is reopened beside it: nothing live, but for what
was reopened behind its back. -/
namespace Qraft
open QraftTask Lifecycle

/-- Whether the models whose live workflows the sweep has read include this one's. -/
def Sweep.Read (sw : Sweep) (w : Workflow) : Prop :=
  sw.pass = .tasks ∧
    match sw.stage with
    | .opening => False
    | .excluding left => ∀ p ∈ left, p.model w = false
    | _ => True

/-- Whether a task was revived since the sweep fetched it, or its graph or chain was resumed since
the sweep read which were live. -/
def Sweep.reopened (sw : Sweep) (t : QraftTask) : Bool :=
  decide (t.id ∈ sw.revived) || t.graphId.any (fun g => .graph g ∈ sw.resumed) ||
    t.workflow.any fun w => w ∈ sw.resumed

/-- A task whose plans have settled, unless it or they were reopened behind the sweep's back. -/
structure Settled (s : Retained) (sw : Sweep) (t : QraftTask) : Prop where
  task : t.id ∈ sw.revived ∨ t.status.Terminal
  graph : ∀ g ∈ s.graphs, t.graphId = some g.id → .graph g.id ∈ sw.resumed ∨ g.status.Terminal
  workflow : ∀ e ∈ s.workflows, t.workflow = some e.workflow →
    e.workflow ∈ sw.resumed ∨ e.row.status.Terminal

/-- What a sweep knows of the tables from the lists it read. Plans that are live and on no list were
resumed since, or hold nothing as old as the cutoff. -/
structure Guarded (s : Retained) (sw : Sweep) : Prop where
  cutoff : sw.cutoff ≤ s.clock
  opening : sw.stage = .opening → sw.pass = .chains
  graphs : sw.stage ≠ .opening → ∀ g ∈ s.graphs, ¬ g.status.Terminal → g.id ∉ sw.openGraphs →
    .graph g.id ∈ sw.resumed ∨
      ((∀ t ∈ s.life.store.tasks, t.graphId = some g.id → sw.cutoff ≤ t.dateUpdated) ∧
        ∀ e ∈ s.workflows, e.row.graphId = some g.id → sw.cutoff ≤ e.row.dateUpdated)
  workflows : ∀ e ∈ s.workflows, ¬ e.row.status.Terminal → sw.Read e.workflow →
    e.workflow ∉ sw.liveWorkflows → e.workflow ∈ sw.resumed ∨
      ∀ t ∈ s.life.store.tasks, t.workflow = some e.workflow → sw.cutoff ≤ t.dateUpdated
  held : ∀ t ∈ s.life.store.tasks, .task t.id ∈ sw.collected → Settled s sw t
  bound : ∀ id, .task id ∈ sw.collected → id < s.life.store.nextId

namespace Guarded
variable {s s' : Retained} {sw sw' : Sweep} {now : Time}

/-- Time passes for a sweep that waits. -/
theorem drift (h : Guarded s sw) {resumed : List Workflow} {revived : List TaskId}
    (hd : Drift now resumed revived s s') (hclock : s.clock ≤ now) : Guarded { s' with clock := now }
      { sw with resumed := resumed ++ sw.resumed, revived := revived ++ sw.revived } := by
  have hnow : sw.cutoff ≤ now := le_trans h.cutoff hclock
  have hdate {a b : Time} (ha : sw.cutoff ≤ a) (hb : b = a ∨ b = now) : sw.cutoff ≤ b := by
    rcases hb with rfl | rfl
    · exact ha
    · exact hnow
  refine ⟨hnow, h.opening, ?_, ?_, ?_, ?_⟩
  · intro hopen g' hg' hlive hnot
    rcases hd.graphs g' hg' with ⟨g, hg, hl⟩ | ⟨hnone, hnone'⟩
    · have hsettled := hl.settled
      rw [hl.id] at hnot hsettled ⊢
      by_cases hterm : g.status.Terminal
      · rcases hsettled hterm with hterm' | hmem
        · exact absurd hterm' hlive
        · exact .inl (List.mem_append_left _ hmem)
      · rcases h.graphs hopen g hg hterm hnot with hmem | ⟨htasks, hrows⟩
        · exact .inl (List.mem_append_right _ hmem)
        · refine .inr ⟨?_, ?_⟩
          · intro t' ht' hgt
            rcases hd.tasks t' ht' with ⟨t, ht, htl⟩ | ⟨-, hnew⟩
            · exact hdate (htasks t ht (htl.graph _ hgt)) htl.date
            · exact hnew ▸ hnow
          · intro e' he' hge
            rcases hd.workflows e' he' with ⟨e, he, hel⟩ | ⟨-, hnew⟩
            · exact hdate (hrows e he (hel.graph _ hge)) hel.date
            · exact hnew ▸ hnow
    · exact .inr ⟨fun t' ht' hgt => absurd hgt (hnone t' ht'), fun e' he' hge => absurd hge (hnone' e' he')⟩
  · intro e' he' hlive hread hnot
    rcases hd.workflows e' he' with ⟨e, he, hl⟩ | ⟨hnone, -⟩
    · have hsettled := hl.settled
      rw [hl.workflow] at hread hnot hsettled ⊢
      by_cases hterm : e.row.status.Terminal
      · rcases hsettled hterm with hterm' | hmem
        · exact absurd hterm' hlive
        · exact .inl (List.mem_append_left _ hmem)
      · rcases h.workflows e he hterm hread hnot with hmem | htasks
        · exact .inl (List.mem_append_right _ hmem)
        · refine .inr ?_
          intro t' ht' hwt
          rcases hd.tasks t' ht' with ⟨t, ht, htl⟩ | ⟨-, hnew⟩
          · exact hdate (htasks t ht (htl.workflow _ hwt)) htl.date
          · exact hnew ▸ hnow
    · exact .inr fun t' ht' hwt => absurd hwt (hnone t' ht')
  · intro t' ht' hmem
    rcases hd.tasks t' ht' with ⟨t, ht, htl⟩ | ⟨hnew, -⟩
    · have hold := h.held t ht (htl.id ▸ hmem)
      refine ⟨?_, ?_, ?_⟩
      · rcases hold.task with hrev | hterm
        · exact .inl (List.mem_append_right _ (htl.id ▸ hrev))
        · rcases htl.settled hterm with hterm' | hrev
          · exact .inr hterm'
          · exact .inl (List.mem_append_left _ hrev)
      · intro g' hg' hgt
        rcases hd.graphs g' hg' with ⟨g, hg, hl⟩ | ⟨hnone, -⟩
        · have hsettled := hl.settled
          rw [hl.id] at hgt hsettled ⊢
          rcases hold.graph g hg (htl.graph _ hgt) with hres | hterm
          · exact .inl (List.mem_append_right _ hres)
          · rcases hsettled hterm with hterm' | hres
            · exact .inr hterm'
            · exact .inl (List.mem_append_left _ hres)
        · exact absurd hgt (hnone t' ht')
      · intro e' he' hwt
        rcases hd.workflows e' he' with ⟨e, he, hl⟩ | ⟨hnone, -⟩
        · have hsettled := hl.settled
          rw [hl.workflow] at hwt hsettled ⊢
          rcases hold.workflow e he (htl.workflow _ hwt) with hres | hterm
          · exact .inl (List.mem_append_right _ hres)
          · rcases hsettled hterm with hterm' | hres
            · exact .inr hterm'
            · exact .inl (List.mem_append_left _ hres)
        · exact absurd hwt (hnone t' ht')
    · exact absurd (h.bound t'.id hmem) (Nat.not_lt.mpr hnew)
  · intro id hmem
    exact lt_of_lt_of_le (h.bound id hmem) hd.nextId

/-- A sweep that goes on to its next pass. -/
theorem advance (h : Guarded s sw) (hs : Shaped s) (hopen : sw.stage ≠ .opening)
    (ha : sw.advance = some sw') : Guarded s sw' := by
  obtain ⟨pass, hp, rfl⟩ := Option.map_eq_some_iff.mp ha
  have hstage : (if pass = SweepPass.tasks then SweepStage.excluding [.iters, .batches, .chains]
      else .selecting) ≠ .opening := by
    split
    · exact fun h => by cases h
    · exact fun h => by cases h
  have hnone : Sweep.collected { sw with
      pass
      rounds := Tables.maxBatches
      stage := if pass = .tasks then .excluding [.iters, .batches, .chains] else .selecting } = [] := by
    unfold Sweep.collected
    split
    · rename_i hd
      simp only at hd
      split at hd
      · cases hd
      · cases hd
    · rfl
  refine ⟨h.cutoff, fun he => absurd he hstage, fun _ => h.graphs hopen, ?_, ?_, ?_⟩
  · rintro e he hlive ⟨rfl, hread⟩ hnot
    simp only [if_true, List.forall_mem_cons, SweepPass.model] at hread
    rcases hs.kinds e he with hk | hk | hk
    · rw [hread.2.2.1] at hk
      cases hk
    · rw [hread.1] at hk
      cases hk
    · rw [hread.2.1] at hk
      cases hk
  · intro t ht hmem
    rw [hnone] at hmem
    cases hmem
  · intro id hmem
    rw [hnone] at hmem
    cases hmem

end Guarded

theorem model_graph (p : SweepPass) (g : GraphId) : p.model (.graph g) = false := by
  cases p <;> rfl

theorem settled_of_not_live {t : QraftTask} (h : t.liveMember = false) : t.status.Terminal := by
  cases hs : t.status <;> simp_all [liveMember, TaskStatus.Terminal]

/-- A delete fetches the tasks its rows reach. -/
theorem Shaped.mem_collect {s : Retained} (hs : Shaped s) {t : QraftTask} (ht : t ∈ s.life.store.tasks)
    {ks : List RowKey} : .task t.id ∈ s.tables.collect ks ↔ t.reached ks = true := by
  simp only [Tables.collect, List.mem_append, List.mem_map, List.mem_filter]
  constructor
  · rintro (hmem | ⟨u, ⟨hu, hreach⟩, he⟩)
    · exact (t.reached_iff ks).mpr (.inl hmem)
    · rwa [← Rows.eq_of_key_eq hs.distinct.tasks hu ht (RowKey.task.inj he)]
  · exact fun h => .inr ⟨t, ⟨ht, h⟩, rfl⟩

namespace Guarded
variable {s : Retained} {sw sw' : Sweep} {chosen : List RowKey}

/-- A graph on no list, of something as old as the cutoff, has settled or was resumed. -/
theorem graph_settled (h : Guarded s sw) (hopen : sw.stage ≠ .opening) {g : QraftGraph} (hg : g ∈ s.graphs)
    (hnot : g.id ∉ sw.openGraphs) (hold : (∃ t ∈ s.life.store.tasks, t.graphId = some g.id ∧
      t.dateUpdated < sw.cutoff) ∨ ∃ e ∈ s.workflows, e.row.graphId = some g.id ∧
        e.row.dateUpdated < sw.cutoff) : .graph g.id ∈ sw.resumed ∨ g.status.Terminal := by
  by_cases hterm : g.status.Terminal
  · exact .inr hterm
  · refine (h.graphs hopen g hg hterm hnot).imp_right fun hyoung => absurd hold ?_
    rintro (⟨t, ht, hgt, hd⟩ | ⟨e, he, hge, hd⟩)
    · exact absurd hd (Nat.not_lt.mpr (hyoung.1 t ht hgt))
    · exact absurd hd (Nat.not_lt.mpr (hyoung.2 e he hge))

/-- Members of an old workflow, fetched with it. -/
theorem collected_workflows (h : Guarded s sw) (hs : Shaped s) (hopen : sw.stage ≠ .opening)
    {model : Workflow → Bool} (hm : ∀ g, model (.graph g) = false)
    (hsub : chosen ⊆ s.tables.sweptWorkflows sw.cutoff sw.openGraphs model) {t : QraftTask}
    (ht : t ∈ s.life.store.tasks) (hreach : t.reached chosen = true) :
    Settled s { sw with revived := [] } t := by
  have hplain := Tables.Plain.of_workflows hm hsub
  rcases (t.reached_iff chosen).mp hreach with hmem | ⟨w, hw, -, hmem⟩ | ⟨-, g, -, hmem⟩
  · obtain ⟨e, -, he, -⟩ := Tables.mem_sweptWorkflows.mp (hsub hmem)
    cases he
  · obtain ⟨e, he, heq, -, hterm, hold, hnot, hlive⟩ := Tables.mem_sweptWorkflows.mp (hsub hmem)
    obtain rfl := RowKey.plan.inj heq
    have hlabel := hs.labels t ht e he hw
    refine ⟨.inr (settled_of_not_live (hlive t ht hw)), ?_, ?_⟩
    · intro g hg hgt
      have hge : e.row.graphId = some g.id := hlabel ▸ hgt
      exact h.graph_settled hopen hg (hnot g.id hge) (.inr ⟨e, he, hge, hold⟩)
    · intro e' he' hw'
      rw [hw] at hw'
      rw [← Rows.eq_of_key_eq hs.workflows he he' (Option.some.inj hw')]
      exact .inr hterm
  · exact absurd hmem (hplain.graphs g)

/-- Old settled tasks. -/
theorem collected_tasks (h : Guarded s sw) (hs : Shaped s) (hopen : sw.stage ≠ .opening)
    (hread : ∀ w, sw.Read w)
    (hsub : chosen ⊆ s.tables.sweptTasks sw.cutoff sw.openGraphs sw.liveWorkflows) {t : QraftTask}
    (ht : t ∈ s.life.store.tasks) (hreach : t.reached chosen = true) :
    Settled s { sw with revived := [] } t := by
  have hplan (w : Workflow) : RowKey.plan w ∉ chosen := by
    intro hw
    obtain ⟨u, -, he, -⟩ := Tables.mem_sweptTasks.mp (hsub hw)
    cases he
  rcases (t.reached_iff chosen).mp hreach with hmem | ⟨w, -, -, hmem⟩ | ⟨-, g, -, hmem⟩
  · obtain ⟨u, hu, he, hterm, hold, hlive, hnot⟩ := Tables.mem_sweptTasks.mp (hsub hmem)
    obtain rfl := Rows.eq_of_key_eq hs.distinct.tasks ht hu (RowKey.task.inj he)
    refine ⟨.inr hterm, ?_, ?_⟩
    · intro g hg hgt
      exact h.graph_settled hopen hg (hnot g.id hgt) (.inl ⟨t, ht, hgt, hold⟩)
    · intro e he hw
      by_cases hterm' : e.row.status.Terminal
      · exact .inr hterm'
      · refine .inl ((h.workflows e he hterm' (hread _) (hlive _ hw)).resolve_right fun hyoung => ?_)
        exact absurd hold (Nat.not_lt.mpr (hyoung t ht hw))
  · exact absurd hmem (hplan w)
  · exact absurd hmem (hplan _)

/-- Executions of the nodes of a settled graph. -/
theorem collected_graphs (hs : Shaped s) (hsub : chosen ⊆ s.tables.sweptGraphs sw.cutoff) {t : QraftTask}
    (ht : t ∈ s.life.store.tasks) (hreach : t.reached chosen = true) :
    Settled s { sw with revived := [] } t := by
  rcases (t.reached_iff chosen).mp hreach with hmem | ⟨w, hw, hc, hmem⟩ | ⟨hn, g, hgt, hmem⟩
  · obtain ⟨g, -, he, -⟩ := Tables.mem_sweptGraphs.mp (hsub hmem)
    cases he
  · obtain ⟨g, -, he, -⟩ := Tables.mem_sweptGraphs.mp (hsub hmem)
    rw [RowKey.plan.inj he] at hc
    cases hc
  · obtain ⟨r, hr, he, hterm, -, hlive, -⟩ := Tables.mem_sweptGraphs.mp (hsub hmem)
    obtain rfl := Workflow.graph.inj (RowKey.plan.inj he)
    refine ⟨.inr (settled_of_not_live (hlive t ht hgt)), ?_, ?_⟩
    · intro g' hg' hgt'
      rw [hgt] at hgt'
      rw [← Rows.eq_of_key_eq hs.graphs hr hg' (Option.some.inj hgt')]
      exact .inr hterm
    · intro e he hw
      rw [hs.nodes t ht hn] at hw
      cases hw

/-- What a delete fetches has settled. -/
theorem collected (h : Guarded s sw) (hs : Shaped s) {ids : List RowKey} (hstage : sw.stage = .deleting ids)
    (hsub : chosen ⊆ sw.queryset s.tables) {t : QraftTask} (ht : t ∈ s.life.store.tasks)
    (hreach : t.reached chosen = true) : Settled s { sw with revived := [] } t := by
  have hopen : sw.stage ≠ .opening := by
    rw [hstage]
    exact fun h => by cases h
  unfold Sweep.queryset at hsub
  split at hsub
  · exact h.collected_workflows hs hopen (model_graph sw.pass) hsub ht hreach
  · exact h.collected_workflows hs hopen (model_graph sw.pass) hsub ht hreach
  · exact h.collected_workflows hs hopen (model_graph sw.pass) hsub ht hreach
  · rename_i hpass
    refine h.collected_tasks hs hopen ?_ hsub ht hreach
    intro w
    refine ⟨hpass, ?_⟩
    rw [hstage]
    trivial
  · exact collected_graphs hs hsub ht hreach
  · rcases (t.reached_iff chosen).mp hreach with hmem | ⟨w, -, -, hmem⟩ | ⟨-, g, -, hmem⟩
    all_goals
      obtain ⟨d, -, he⟩ := List.mem_map.mp (hsub hmem)
      cases he

/-- A sweep between deletes holds no rows. -/
theorem idle (h : Guarded s sw) (hcut : sw'.cutoff = sw.cutoff) (hopen : sw'.stage ≠ .opening)
    (hgraphs : ∀ g ∈ s.graphs, ¬ g.status.Terminal → g.id ∉ sw'.openGraphs → .graph g.id ∈ sw'.resumed ∨
      ((∀ t ∈ s.life.store.tasks, t.graphId = some g.id → sw.cutoff ≤ t.dateUpdated) ∧
        ∀ e ∈ s.workflows, e.row.graphId = some g.id → sw.cutoff ≤ e.row.dateUpdated))
    (hworkflows : ∀ e ∈ s.workflows, ¬ e.row.status.Terminal → sw'.Read e.workflow →
      e.workflow ∉ sw'.liveWorkflows → e.workflow ∈ sw'.resumed ∨
        ∀ t ∈ s.life.store.tasks, t.workflow = some e.workflow → sw.cutoff ≤ t.dateUpdated)
    (hnone : sw'.collected = []) : Guarded s sw' := by
  rw [← hcut] at hgraphs hworkflows
  refine ⟨hcut ▸ h.cutoff, fun he => absurd he hopen, fun _ => hgraphs, hworkflows, ?_, ?_⟩
  · intro t _ hmem
    rw [hnone] at hmem
    cases hmem
  · intro id hmem
    rw [hnone] at hmem
    cases hmem

/-- What a queryset selects of the task table. -/
theorem task_of_queryset {tb : Tables} {id : TaskId} (h : .task id ∈ sw.queryset tb) :
    ∃ t ∈ tb.tasks, t.id = id := by
  unfold Sweep.queryset at h
  split at h
  · obtain ⟨e, -, he, -⟩ := Tables.mem_sweptWorkflows.mp h
    cases he
  · obtain ⟨e, -, he, -⟩ := Tables.mem_sweptWorkflows.mp h
    cases he
  · obtain ⟨e, -, he, -⟩ := Tables.mem_sweptWorkflows.mp h
    cases he
  · obtain ⟨t, ht, he, -⟩ := Tables.mem_sweptTasks.mp h
    exact ⟨t, ht, (RowKey.task.inj he).symm⟩
  · obtain ⟨g, -, he, -⟩ := Tables.mem_sweptGraphs.mp h
    cases he
  · obtain ⟨d, -, he⟩ := List.mem_map.mp h
    cases he

/-- A sweep's own step, by what it knows of the tables it read. -/
theorem sweepStep (h : Guarded s sw) (hs : Shaped s) (hstep : (s.tables.sweepStep sw).2 = some sw') :
    Guarded s sw' := by
  have opened {stage : SweepStage} (hstage : sw.stage = stage) (hne : stage ≠ .opening) :
      sw.stage ≠ .opening := hstage ▸ hne
  unfold Tables.sweepStep at hstep
  split at hstep
  · rename_i hstage
    cases hstep
    refine h.idle rfl (fun he => by cases he) ?_ ?_ rfl
    · intro g hg hlive hnot
      refine absurd (List.mem_map.mpr ⟨g, List.mem_filter.mpr ⟨hg, ?_⟩, rfl⟩) hnot
      exact decide_eq_true hlive
    · rintro e he hlive ⟨hpass, -⟩ hnot
      rw [h.opening hstage] at hpass
      cases hpass
  · rename_i hstage
    cases hstep
    have hopen := opened hstage fun h => by cases h
    refine h.idle rfl (fun he => by cases he) (h.graphs hopen) ?_ rfl
    rintro e he hlive ⟨hpass, -⟩ hnot
    refine h.workflows e he hlive ⟨hpass, ?_⟩ hnot
    rw [hstage]
    exact fun p hp => by cases hp
  · rename_i pass left hstage
    cases hstep
    have hopen := opened hstage fun h => by cases h
    refine h.idle rfl (fun he => by cases he) ?_ ?_ rfl
    · intro g hg hlive hnot
      refine (h.graphs hopen g hg hlive hnot).imp_left fun hmem => List.mem_filter.mpr ⟨hmem, ?_⟩
      rw [model_graph]
      rfl
    · rintro e he hlive ⟨hpass, hleft⟩ hnot
      simp only [List.mem_append, not_or] at hnot
      by_cases hm : pass.model e.workflow = true
      · refine absurd (List.mem_map.mpr ⟨e, List.mem_filter.mpr ⟨he, ?_⟩, rfl⟩) hnot.2
        rw [hm, Bool.true_and, decide_eq_true_eq]
        exact hlive
      · rw [Bool.not_eq_true] at hm
        have hread : sw.Read e.workflow := by
          refine ⟨hpass, ?_⟩
          rw [hstage]
          exact List.forall_mem_cons.mpr ⟨hm, hleft⟩
        refine (h.workflows e he hlive hread hnot.1).imp_left fun hmem => List.mem_filter.mpr ⟨hmem, ?_⟩
        rw [hm]
        rfl
  · rename_i hstage
    have hopen := opened hstage fun h => by cases h
    split at hstep
    · exact h.advance hs hopen hstep
    · simp only at hstep
      split at hstep
      · exact h.advance hs hopen hstep
      · cases hstep
        refine h.idle rfl (fun he => by cases he) (h.graphs hopen) ?_ rfl
        rintro e he hlive ⟨hpass, -⟩ hnot
        refine h.workflows e he hlive ⟨hpass, ?_⟩ hnot
        rw [hstage]
        trivial
  · rename_i ids hstage
    have hopen := opened hstage fun h => by cases h
    simp only at hstep
    split at hstep
    · exact h.advance hs hopen hstep
    · cases hstep
      have hsub : (sw.queryset s.tables).filter (fun k => k ∈ ids) ⊆ sw.queryset s.tables :=
        List.filter_sublist.subset
      refine ⟨h.cutoff, (fun he => by cases he), fun _ => h.graphs hopen, ?_, ?_, ?_⟩
      · rintro e he hlive ⟨hpass, -⟩ hnot
        refine h.workflows e he hlive ⟨hpass, ?_⟩ hnot
        rw [hstage]
        trivial
      · intro t ht hmem
        have hold := h.collected hs hstage hsub ht ((hs.mem_collect ht).mp hmem)
        exact ⟨hold.task, hold.graph, hold.workflow⟩
      · intro id hmem
        rcases List.mem_append.mp hmem with hmem | hmem
        · obtain ⟨t, ht, rfl⟩ := task_of_queryset (hsub hmem)
          exact (hs.distinct.bound t ht).1
        · obtain ⟨t, ht, he⟩ := List.mem_map.mp hmem
          rw [← RowKey.task.inj he]
          exact (hs.distinct.bound t (List.mem_of_mem_filter ht)).1
  · rename_i rows hstage
    have hopen := opened hstage fun h => by cases h
    simp only at hstep
    split at hstep
    · exact h.advance hs hopen hstep
    · cases hstep
      refine h.idle rfl (fun he => by cases he) (h.graphs hopen) ?_ rfl
      rintro e he hlive ⟨hpass, -⟩ hnot
      refine h.workflows e he hlive ⟨hpass, ?_⟩ hnot
      rw [hstage]
      trivial

end Guarded

namespace Retained
variable {limit : Nat} {s s' : Retained}

theorem cutoff_le {c : RetentionSettings} {now cutoff : Time} {tb : Tables}
    (h : c.cutoff now tb = some cutoff) (hdates : ∀ t ∈ tb.tasks, t.dateUpdated ≤ now) : cutoff ≤ now := by
  have hmem := List.max?_mem h
  rcases List.mem_append.mp hmem with hm | hm
  · obtain ⟨d, -, rfl⟩ := Option.map_eq_some_iff.mp (Option.mem_toList.mp hm)
    exact Nat.sub_le _ _
  · obtain ⟨n, -, hc⟩ := Option.bind_eq_some_iff.mp (Option.mem_toList.mp hm)
    have hcut := (List.perm_insertionSort _ _).mem_iff.mp (List.mem_of_getElem? hc)
    obtain ⟨t, ht, rfl⟩ := List.mem_map.mp hcut
    exact hdates t (List.mem_of_mem_filter ht)

/-- The tables are in shape, and every sweep under way knows what it needs to know. -/
structure Watched (s : Retained) : Prop where
  shaped : Shaped s
  sweeps : ∀ sw ∈ s.sweeps, Guarded s sw

theorem Watched.next (h : Watched s) {e : RetainedEvent × Env}
    (hstep : (retentionSystem limit).step s e = some s') : Watched s' := by
  obtain ⟨e, env⟩ := e
  simp only [retentionSystem] at hstep
  split at hstep
  · rename_i hclock
    obtain ⟨u, hu, rfl⟩ := Option.map_eq_some_iff.mp hstep
    refine ⟨shaped_step h.shaped hclock hu, ?_⟩
    obtain ⟨resumed, revived, hd, hsweeps⟩ := step_drift h.shaped hu
    intro sw' hsw'
    rcases hsweeps sw' hsw' with ⟨sw, hsw, rfl⟩ | ⟨c, cutoff, hcut, rfl⟩ | ⟨sw, hsw, rfl, rfl, hnext⟩
    · exact (h.sweeps sw hsw).drift hd hclock
    · refine ⟨cutoff_le hcut fun t ht => le_trans (h.shaped.dates t ht) hclock, fun _ => rfl,
        fun hne => absurd rfl hne, ?_, fun t _ hm => (by cases hm), fun _ hm => by cases hm⟩
      rintro e - - ⟨hpass, -⟩
      cases hpass
    · exact ((h.sweeps sw hsw).sweepStep h.shaped hnext).drift hd hclock
  · cases hstep

theorem reach_watched (h : (retentionSystem limit).Reach s) : Watched s := by
  apply h.invariant Watched
  · rintro s rfl
    refine ⟨⟨⟨.nil, ?_, ?_, ?_, ?_, ?_⟩, .nil, .nil, ?_, ?_, ?_, ?_⟩, ?_⟩
    all_goals
      intro _ h
      cases h
  · intro s e s' h _ hstep
    exact h.next hstep

/-- Terminal, and a member of no graph or workflow that is live. -/
structure Spent (s : Retained) (t : QraftTask) : Prop where
  task : t.status.Terminal
  graph : ∀ g ∈ s.graphs, t.graphId = some g.id → g.status.Terminal
  workflow : ∀ e ∈ s.workflows, t.workflow = some e.workflow → e.row.status.Terminal

theorem Settled.spent {sw : Sweep} {t : QraftTask} (h : Settled s sw t) (hn : sw.reopened t = false) :
    Spent s t := by
  simp only [Sweep.reopened, Bool.or_eq_false_iff, decide_eq_false_iff_not, Option.any_eq_false] at hn
  refine ⟨h.task.resolve_left hn.1.1, ?_, ?_⟩
  · exact fun g hg hgt => (h.graph g hg hgt).resolve_left (hn.1.2 _ hgt)
  · exact fun e he hw => (h.workflow e he hw).resolve_left (hn.2 _ hw)

/-- Only deletes of sweeps take tasks away. -/
theorem gone_collected (hs : Shaped s) {e : RetainedEvent} {env : Env} (hstep : s.step limit env e = some s')
    {t : QraftTask} (ht : t ∈ s.life.store.tasks) (hgone : ∀ u ∈ s'.life.store.tasks, u.id ≠ t.id) :
    ∃ i sw, e = .sweep i ∧ s.sweeps[i]? = some sw ∧ .task t.id ∈ sw.collected := by
  have stays (h : ∃ u ∈ s'.life.store.tasks, u.id = t.id) :
      ∃ i sw, e = .sweep i ∧ s.sweeps[i]? = some sw ∧ .task t.id ∈ sw.collected := by
    obtain ⟨u, hu, hid⟩ := h
    exact absurd hid (hgone u hu)
  cases e with
  | table e =>
    simp only [step] at hstep
    split at hstep
    · obtain ⟨life, hlife, rfl⟩ := Option.map_eq_some_iff.mp hstep
      obtain ⟨u, hu, -⟩ := Lifecycle.step_task hs.distinct hlife (hs.distinct.task?_of_mem ht)
      obtain ⟨hu, hid⟩ := TaskStore.task?_eq_some hu
      exact stays ⟨u, hu, hid⟩
    · cases hstep
  | sweep i =>
    obtain ⟨sw, hsw, rfl⟩ := Option.map_eq_some_iff.mp hstep
    refine ⟨i, sw, rfl, hsw, ?_⟩
    rcases sweepStep_tables s.tables sw with he | ⟨rows, hstage, he⟩
    · simp only [he] at hgone
      exact absurd rfl (hgone t ht)
    · have hcol : sw.collected = rows := by
        rw [Sweep.collected, hstage]
      rw [hcol]
      by_contra hnot
      simp only [he] at hgone
      exact hgone (t.unlink rows) (List.mem_filterMap.mpr ⟨t, ht, by simp [hnot]⟩) rfl
  | resumeChain workflow current =>
    simp only [step] at hstep
    split at hstep
    · cases hstep
      refine stays ⟨unlinkStep workflow current t, List.mem_map.mpr ⟨t, ht, rfl⟩, ?_⟩
      rw [unlinkStep_frame]
    · cases hstep
  | startGraph id | create workflow row =>
    simp only [step] at hstep
    split at hstep
    · cases hstep
    · cases hstep
      exact stays ⟨t, ht, rfl⟩
  | moveGraph id status | resumeGraph id | moveWorkflow workflow status =>
    simp only [step] at hstep
    split at hstep
    · cases hstep
      exact stays ⟨t, ht, rfl⟩
    · cases hstep
  | recordSettlement r | dispatchHook d =>
    cases hstep
    exact stays ⟨t, ht, rfl⟩
  | startSweep conf args =>
    obtain ⟨cutoff, -, rfl⟩ := Option.map_eq_some_iff.mp hstep
    exact stays ⟨t, ht, rfl⟩

/-- A task that a sweep deletes is spent, unless it was reopened behind the sweep's back. -/
theorem live_work_kept (hr : (retentionSystem limit).Reach s) {e : RetainedEvent × Env}
    (hstep : (retentionSystem limit).step s e = some s') {t : QraftTask} (ht : t ∈ s.life.store.tasks)
    (hgone : ∀ u ∈ s'.life.store.tasks, u.id ≠ t.id) :
    ∃ i sw, e.1 = .sweep i ∧ s.sweeps[i]? = some sw ∧ (sw.reopened t = false → Spent s t) := by
  have hw := reach_watched hr
  obtain ⟨e, env⟩ := e
  simp only [retentionSystem] at hstep
  split at hstep
  · obtain ⟨u, hu, rfl⟩ := Option.map_eq_some_iff.mp hstep
    obtain ⟨i, sw, he, hsw, hcol⟩ := gone_collected hw.shaped hu ht hgone
    have hsettled := (hw.sweeps sw (List.mem_of_getElem? hsw)).held t ht hcol
    exact ⟨i, sw, he, hsw, fun hn => Settled.spent hsettled hn⟩
  · cases hstep

/-- A graph fails with its task, a second task succeeds after it, and a sweep that is to keep one
task begins. -/
def failedGraph : List (RetainedEvent × Env) := [
  (.startGraph 0, { now := 1 }),
  (.table (.asyncTask { Lifecycle.work with graphId := some 0 } none none), { now := 1 }),
  (.table (.asyncTask Lifecycle.work none none), { now := 1 }),
  (.table (.saveResult { id := 2, success := false, stopped := 2 }), { now := 2 }),
  (.table (.handleResult 0), { now := 2 }),
  (.moveGraph 0 .failed, { now := 2 }),
  (.table (.saveResult { id := 5, success := true, stopped := 3 }), { now := 3 }),
  (.table (.handleResult 1), { now := 3 }),
  (.startSweep { retentionMaxTasks := some 1 } {}, { now := 4 }),
  (.sweep 0, { now := 4 })]

def upToDelete : List (RetainedEvent × Env) := List.replicate 9 (.sweep 0, { now := 5 })

/-- Whether the next step of the sweep deletes a task that passes a test. -/
def deletes (p : Retained → Sweep → QraftTask → Bool) (s : Retained) : Bool :=
  s.sweeps[0]?.any fun sw => ((retentionSystem 1).step s (.sweep 0, { now := 5 })).any fun s' =>
    s.life.store.tasks.any fun t => p s sw t && s'.life.store.tasks.all fun u => u.id ≠ t.id

private theorem deletes_spec {p : Retained → Sweep → QraftTask → Bool} (h : s.deletes p = true) :
    ∃ sw s' t, s.sweeps[0]? = some sw ∧ (retentionSystem 1).step s (.sweep 0, { now := 5 }) = some s' ∧
      t ∈ s.life.store.tasks ∧ (∀ u ∈ s'.life.store.tasks, u.id ≠ t.id) ∧ p s sw t = true := by
  obtain ⟨sw, hsw, h⟩ := (Option.any_eq_true _ _).mp h
  obtain ⟨s', hs', h⟩ := (Option.any_eq_true _ _).mp h
  obtain ⟨t, ht, h⟩ := List.any_eq_true.mp h
  rw [Bool.and_eq_true, List.all_eq_true] at h
  exact ⟨sw, s', t, hsw, hs', ht, fun u hu => of_decide_eq_true (h.2 u hu), h.1⟩

theorem live_work_kept_failedGraph : ∃ s, (retentionSystem 1).Reach s ∧ ∃ s' t,
    (retentionSystem 1).step s (.sweep 0, { now := 5 }) = some s' ∧ t ∈ s.life.store.tasks ∧
      (∀ u ∈ s'.life.store.tasks, u.id ≠ t.id) ∧ Spent s t := by
  obtain ⟨s, hr, hp⟩ := StepSystem.exists_reach_of_run (retentionSystem 1) (failedGraph ++ upToDelete)
    (.init rfl) (deletes fun _ sw t => !sw.reopened t) (by decide)
  obtain ⟨sw, s', t, hsw, hstep, ht, hgone, hn⟩ := deletes_spec hp
  obtain ⟨i, sw', he, hsw', hspent⟩ := live_work_kept hr hstep ht hgone
  cases he
  rw [hsw] at hsw'
  cases hsw'
  exact ⟨s, hr, s', t, hstep, ht, hgone, hspent ((Bool.not_eq_true' _).mp hn)⟩

/-- The graph is resumed after the sweep read which graphs are open. -/
theorem live_work_deleted : ∃ s, (retentionSystem 1).Reach s ∧ ∃ s' t,
    (retentionSystem 1).step s (.sweep 0, { now := 5 }) = some s' ∧ t ∈ s.life.store.tasks ∧
      (∀ u ∈ s'.life.store.tasks, u.id ≠ t.id) ∧
      ∃ g ∈ s.graphs, t.graphId = some g.id ∧ g.status = .running := by
  obtain ⟨s, hr, hp⟩ := StepSystem.exists_reach_of_run (retentionSystem 1)
    (failedGraph ++ [(.resumeGraph 0, { now := 5 })] ++ upToDelete) (.init rfl)
    (deletes fun s _ t => s.graphs.any fun g => t.graphId = some g.id && g.status = .running) (by decide)
  obtain ⟨sw, s', t, -, hstep, ht, hgone, hlive⟩ := deletes_spec hp
  obtain ⟨g, hg, hlive⟩ := List.any_eq_true.mp hlive
  rw [Bool.and_eq_true, decide_eq_true_eq, decide_eq_true_eq] at hlive
  exact ⟨s, hr, s', t, hstep, ht, hgone, g, hg, hlive⟩

end Retained
end Qraft
