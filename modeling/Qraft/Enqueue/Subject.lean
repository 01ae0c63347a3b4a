import Qraft.Enqueue.Effects

/-! Subjects agree: whatever is created around a binding, no row of the graph is left behind. -/
namespace Qraft
open QraftTask

namespace Enqueueing

/-- Labels that name a graph carry the graph's subject. -/
def Carries (graphs : List GraphRows) (graphId : Option GraphId) (subjectType subjectId : Option String) :
    Prop :=
  ∀ gid, graphId = some gid → ∃ g ∈ graphs, g.graph.id = gid ∧
    subjectType = g.graph.subjectType ∧ subjectId = g.graph.subjectId

/-- Labels read at some earlier time: they name the graph's subject or none yet. -/
def Remembers (graphs : List GraphRows) (graphId : Option GraphId)
    (subjectType subjectId : Option String) : Prop :=
  ∀ gid, graphId = some gid → ∃ g ∈ graphs, g.graph.id = gid ∧
    ((subjectType = none ∧ subjectId = none) ∨
      (subjectType = g.graph.subjectType ∧ subjectId = g.graph.subjectId))

/-- A type and an id, or neither. -/
def Paired (g : QraftGraph) : Prop := g.subjectType = none ↔ g.subjectId = none

structure Agreement (s : Enqueueing) : Prop where
  distinct : s.life.store.Distinct
  ids : (s.graphs.map fun g => g.graph.id).Nodup
  bound : ∀ g ∈ s.graphs, g.graph.id < s.graphs.length
  paired : ∀ g ∈ s.graphs, Paired g.graph
  tasks : ∀ t ∈ s.life.store.tasks, Carries s.graphs t.graphId t.subjectType t.subjectId
  workflows : ∀ w ∈ s.workflows, Carries s.graphs w.row.graphId w.row.subjectType w.row.subjectId
  handles : ∀ w ∈ s.handles, Remembers s.graphs w.row.graphId w.row.subjectType w.row.subjectId
  calls : ∀ p ∈ s.calls, ∀ m cluster, p.phase = .inserting m cluster →
    Remembers s.graphs m.graphId m.subjectType m.subjectId

section
variable {graphs graphs' : List GraphRows} {graphId : Option GraphId}
  {subjectType subjectId : Option String}

theorem Carries.remembers (h : Carries graphs graphId subjectType subjectId) :
    Remembers graphs graphId subjectType subjectId := by
  intro gid hgid
  obtain ⟨g, hg, hid, hsame⟩ := h gid hgid
  exact ⟨g, hg, hid, .inr hsame⟩

/-- Graph rows that keep id and subject. -/
def SameSubjects (graphs graphs' : List GraphRows) : Prop := ∀ g ∈ graphs, ∃ g' ∈ graphs',
  g'.graph.id = g.graph.id ∧ g'.graph.subjectType = g.graph.subjectType ∧
    g'.graph.subjectId = g.graph.subjectId

theorem SameSubjects.refl (graphs : List GraphRows) : SameSubjects graphs graphs :=
  fun g hg => ⟨g, hg, rfl, rfl, rfl⟩

theorem Carries.mono (h : Carries graphs graphId subjectType subjectId)
    (hs : SameSubjects graphs graphs') : Carries graphs' graphId subjectType subjectId := by
  intro gid hgid
  obtain ⟨g, hg, hid, hty, hsid⟩ := h gid hgid
  obtain ⟨g', hg', hid', hty', hsid'⟩ := hs g hg
  exact ⟨g', hg', hid'.trans hid, hty.trans hty'.symm, hsid.trans hsid'.symm⟩

theorem Remembers.mono (h : Remembers graphs graphId subjectType subjectId)
    (hs : SameSubjects graphs graphs') : Remembers graphs' graphId subjectType subjectId := by
  intro gid hgid
  obtain ⟨g, hg, hid, hor⟩ := h gid hgid
  obtain ⟨g', hg', hid', hty', hsid'⟩ := hs g hg
  refine ⟨g', hg', hid'.trans hid, ?_⟩
  rcases hor with hnone | ⟨hty, hsid⟩
  · exact .inl hnone
  · exact .inr ⟨hty.trans hty'.symm, hsid.trans hsid'.symm⟩

end

section
variable {conf : RetryDefaults} {limit : Nat} {s s' : Enqueueing} {env : Env}

theorem graph?_eq_some {id : GraphId} {g : GraphRows} (h : s.graph? id = some g) :
    g ∈ s.graphs ∧ g.graph.id = id := Rows.get?_eq_some h

/-- What `member_labels` returns carries the subject of the graph as it stands. -/
theorem memberLabels_carries {graph : Option GraphId} {node ty id : Option String} {r : MemberLabels}
    (h : memberLabels s.graph? graph node ty id = .ok r) :
    Carries s.graphs r.graphId r.subjectType r.subjectId := by
  unfold memberLabels at h
  split at h
  · split at h
    · cases h
    · cases h
      intro gid hgid
      cases hgid
  · split at h
    · cases h
    · rename_i gid g hg
      obtain ⟨hmem, hid⟩ := graph?_eq_some hg
      split at h
      · cases h
      · split at h
        · cases h
        · split at h
          · cases h
            intro k hk
            exact ⟨g, hmem, hid.trans (Option.some.inj hk), rfl, rfl⟩
          · split at h
            · cases h
            · rename_i hsame
              cases h
              have hpair := not_not.mp hsame
              intro k hk
              exact ⟨g, hmem, hid.trans (Option.some.inj hk), congrArg Prod.fst hpair,
                congrArg Prod.snd hpair⟩

/-- A row inserted with labels read earlier carries the subject its graph has now. -/
theorem relabel_carries {m m' : QraftTask} (h : Remembers s.graphs m.graphId m.subjectType m.subjectId)
    (hm : s.relabel m = .ok m') : Carries s.graphs m'.graphId m'.subjectType m'.subjectId := by
  rcases relabel_eq_ok hm with ⟨rfl, hnone | hty⟩ | ⟨id, g, hid, -, hg, rfl⟩
  · intro gid hgid
    rw [hnone] at hgid
    cases hgid
  · intro gid hgid
    obtain ⟨g, hg, hgi, ⟨hnone, -⟩ | hsame⟩ := h gid hgid
    · rw [hnone] at hty
      cases hty
    · exact ⟨g, hg, hgi, hsame⟩
  · obtain ⟨hmem, hgi⟩ := graph?_eq_some hg
    intro gid hgid
    exact ⟨g, hmem, hgi.trans (Option.some.inj (hid.symm.trans hgid)), rfl, rfl⟩

theorem nodeMetadata_carries {graph : GraphId} {g : GraphRows} {key : String}
    {r : QraftTask × Option String} (hg : s.graph? graph = some g)
    (h : nodeMetadata conf g key env = .ok r) :
    Carries s.graphs r.1.graphId r.1.subjectType r.1.subjectId := by
  unfold nodeMetadata at h
  split at h
  · cases h
  · obtain ⟨policy, -, h⟩ := Transaction.bind_eq_ok.mp h
    cases h
    intro gid hgid
    exact ⟨g, (graph?_eq_some hg).1, Option.some.inj hgid, rfl, rfl⟩

theorem metadata_carries {c : AsyncCall} {r : QraftTask × Option String}
    (h : c.metadata conf s.graph? = .ok r) : Carries s.graphs r.1.graphId r.1.subjectType r.1.subjectId := by
  unfold AsyncCall.metadata at h
  split at h
  · cases h
  · obtain ⟨policy, -, h⟩ := Transaction.bind_eq_ok.mp h
    obtain ⟨⟨ty, id⟩, -, h⟩ := Transaction.bind_eq_ok.mp h
    obtain ⟨labels, hl, h⟩ := Transaction.bind_eq_ok.mp h
    obtain ⟨cluster, -, h⟩ := Transaction.bind_eq_ok.mp h
    split at h
    · cases h
    · cases h
      exact memberLabels_carries hl

namespace Agreement

/-- A step of the task table that creates nothing, or a row that carries its graph's subject. -/
theorem tasks_step (h : Agreement s) {e : LifecycleEvent} {life : Lifecycle}
    (hstep : s.life.step limit env e = some life)
    (hnew : ∀ m, Lifecycle.createdBy e = some m → Carries s.graphs m.graphId m.subjectType m.subjectId) :
    ∀ t ∈ life.store.tasks, Carries s.graphs t.graphId t.subjectType t.subjectId := by
  intro t' ht'
  rcases Lifecycle.step_frame h.distinct hstep ht' with ⟨t, ht, he⟩ | ⟨m, hm, -, he⟩
  · rw [he]
    exact h.tasks t ht
  · rw [he]
    exact hnew m hm

theorem withLife (h : Agreement s) {life : Lifecycle} {keyed : List KeyedTask}
    (hd : life.store.Distinct)
    (ht : ∀ t ∈ life.store.tasks, Carries s.graphs t.graphId t.subjectType t.subjectId) :
    Agreement { s with life, keyed } :=
  ⟨hd, h.ids, h.bound, h.paired, ht, h.workflows, h.handles, h.calls⟩

theorem setPhase (h : Agreement s) {i : Nat} {phase : AsyncPhase}
    (hphase : ∀ m cluster, phase = .inserting m cluster →
      Remembers s.graphs m.graphId m.subjectType m.subjectId) : Agreement (s.setPhase i phase) := by
  refine ⟨h.distinct, h.ids, h.bound, h.paired, h.tasks, h.workflows, h.handles, ?_⟩
  intro p' hp' m cluster hin
  rcases mem_setPhase hp' with hold | ⟨p, hp, rfl⟩
  · exact h.calls p' hold m cluster hin
  · exact hphase m cluster hin

theorem createAndEnqueue (h : Agreement s) {m : QraftTask} {cluster : Option String}
    {raises : Option QraftError} (hm : Remembers s.graphs m.graphId m.subjectType m.subjectId)
    (hc : s.createAndEnqueue m cluster raises env = .ok s') : Agreement s' := by
  obtain ⟨m', hm', -, rfl⟩ := createAndEnqueue_eq_ok hc
  have hstep := Lifecycle.step_asyncTask 0 s.life m' cluster env
  apply h.withLife (Lifecycle.step_rows h.distinct hstep).1
  apply h.tasks_step hstep
  intro k hk
  obtain rfl := Option.some.inj hk
  exact relabel_carries hm hm'

/-- More graphs, or the same with other columns. -/
theorem withGraphs (h : Agreement s) {graphs : List GraphRows} (hs : SameSubjects s.graphs graphs)
    (hids : (graphs.map fun g => g.graph.id).Nodup) (hbound : ∀ g ∈ graphs, g.graph.id < graphs.length)
    (hpaired : ∀ g ∈ graphs, Paired g.graph) : Agreement { s with graphs } :=
  ⟨h.distinct, hids, hbound, hpaired, fun t ht => (h.tasks t ht).mono hs,
    fun w hw => (h.workflows w hw).mono hs, fun w hw => (h.handles w hw).mono hs,
    fun p hp m cluster hin => (h.calls p hp m cluster hin).mono hs⟩

end Agreement

theorem paired_parsed {subject : Option (String × String)} {g : QraftGraph}
    (h : parseSubject subject = .ok (g.subjectType, g.subjectId)) : Paired g := by
  rcases parseSubject_eq_ok h with he | ⟨ty, id, -, he⟩
  · have hty := congrArg Prod.fst he
    have hid := congrArg Prod.snd he
    exact ⟨fun _ => hid, fun _ => hty⟩
  · have hty : g.subjectType = some ty := congrArg Prod.fst he
    have hid : g.subjectId = some id := congrArg Prod.snd he
    simp [Paired, hty, hid]

/-- The columns of a row of the graph whose subject is bound, and of any other row. -/
theorem carries_backfill {graphs : List GraphRows} {graph : GraphId} {g : GraphRows}
    {f : QraftGraph → QraftGraph} (ty id : String) (hids : (graphs.map fun g => g.graph.id).Nodup)
    (hg : g ∈ graphs) (hgid : g.graph.id = graph) (hty : g.graph.subjectType = none)
    (hf : ∀ g, (f g).id = g.id ∧ (f g).subjectType = some ty ∧ (f g).subjectId = some id)
    {graphId : Option GraphId} {subjectType subjectId : Option String}
    (h : Carries graphs graphId subjectType subjectId) :
    Carries (Rows.updateWhere (fun g => g.graph.id = graph) (fun g => { g with graph := f g.graph }) graphs)
      graphId (if graphId = some graph && subjectType.isNone then some ty else subjectType)
      (if graphId = some graph && subjectType.isNone then some id else subjectId) := by
  intro gid hgraph
  obtain ⟨k, hk, hkid, hkty, hksid⟩ := h gid hgraph
  have hmem := Rows.mem_updateWhere_of_mem (p := fun g : GraphRows => g.graph.id = graph)
    (f := fun g => { g with graph := f g.graph }) hk
  refine ⟨_, hmem, ?_⟩
  by_cases he : k.graph.id = graph
  · obtain rfl : k = g := Rows.eq_of_key_eq hids hk hg (he.trans hgid.symm)
    have hnone : subjectType = none := hkty.trans hty
    have hsel : (decide (graphId = some graph) && subjectType.isNone) = true := by
      rw [hnone, hgraph, ← hkid, he]
      simp
    obtain ⟨hid', hty', hsid'⟩ := hf k.graph
    rw [if_pos hsel, if_pos hsel, if_pos (decide_eq_true he)]
    exact ⟨hid'.trans hkid, hty'.symm, hsid'.symm⟩
  · have hsel : ¬ (decide (graphId = some graph) && subjectType.isNone) = true := by
      rw [hgraph, ← hkid]
      simp [he]
    rw [if_neg hsel, if_neg hsel, if_neg (by simpa using he)]
    exact ⟨hkid, hkty, hksid⟩

/-- Labels read before a binding name no subject, and those of other graphs are not touched. -/
theorem remembers_bound {graphs : List GraphRows} {graph : GraphId} {g : GraphRows}
    {f : QraftGraph → QraftGraph} (hids : (graphs.map fun g => g.graph.id).Nodup)
    (hg : g ∈ graphs) (hgid : g.graph.id = graph) (hty : g.graph.subjectType = none)
    (hsid : g.graph.subjectId = none) (hf : ∀ g, (f g).id = g.id)
    {graphId : Option GraphId} {subjectType subjectId : Option String}
    (h : Remembers graphs graphId subjectType subjectId) :
    Remembers (Rows.updateWhere (fun g => g.graph.id = graph) (fun g => { g with graph := f g.graph })
      graphs) graphId subjectType subjectId := by
  intro gid hgraph
  obtain ⟨k, hk, hkid, hor⟩ := h gid hgraph
  have hmem := Rows.mem_updateWhere_of_mem (p := fun g : GraphRows => g.graph.id = graph)
    (f := fun g => { g with graph := f g.graph }) hk
  refine ⟨_, hmem, ?_⟩
  by_cases he : k.graph.id = graph
  · obtain rfl : k = g := Rows.eq_of_key_eq hids hk hg (he.trans hgid.symm)
    rw [if_pos (decide_eq_true he)]
    refine ⟨(hf k.graph).trans hkid, .inl ?_⟩
    rcases hor with hnone | ⟨hkty, hksid⟩
    · exact hnone
    · exact ⟨hkty.trans hty, hksid.trans hsid⟩
  · rw [if_neg (by simpa using he)]
    exact ⟨hkid, hor⟩

theorem writeGraph_ids {graph : GraphId} {f : QraftGraph → QraftGraph} (hf : ∀ g, (f g).id = g.id) :
    ((s.writeGraph graph f).graphs.map fun g => g.graph.id) = s.graphs.map fun g => g.graph.id := by
  apply Rows.map_updateWhere
  intro g _ _
  exact hf g.graph

/-- A write to one graph row, as far as ids and pairs go. -/
theorem Agreement.writeGraph_rows (h : Agreement s) (graph : GraphId) {f : QraftGraph → QraftGraph}
    (hf : ∀ g, (f g).id = g.id) (hp : ∀ g, Paired g → Paired (f g)) :
    ((s.writeGraph graph f).graphs.map fun g => g.graph.id).Nodup ∧
      (∀ g ∈ (s.writeGraph graph f).graphs, g.graph.id < (s.writeGraph graph f).graphs.length) ∧
      ∀ g ∈ (s.writeGraph graph f).graphs, Paired g.graph := by
  have hlen : (s.writeGraph graph f).graphs.length = s.graphs.length := List.length_map _
  refine ⟨by rw [writeGraph_ids hf]; exact h.ids, ?_, ?_⟩
  · intro g' hg'
    obtain ⟨g, hg, rfl⟩ := Rows.mem_updateWhere.mp hg'
    rw [hlen]
    split
    · rw [show ({ g with graph := f g.graph } : GraphRows).graph.id = g.graph.id from hf g.graph]
      exact h.bound g hg
    · exact h.bound g hg
  · intro g' hg'
    obtain ⟨g, hg, rfl⟩ := Rows.mem_updateWhere.mp hg'
    split
    · exact hp g.graph (h.paired g hg)
    · exact h.paired g hg

theorem Agreement.bound_subject (h : Agreement s) {graph : GraphId} {g : GraphRows} {ty id : String}
    {now : Time} (hg : s.graph? graph = some g) (hty : g.graph.subjectType = none)
    (hsid : g.graph.subjectId = none) :
    Agreement ((s.writeGraph graph fun g => { g with
      subjectType := some ty, subjectId := some id, dateUpdated := now }).backfill
        graph (some ty) (some id)) := by
  obtain ⟨hmem, hgid⟩ := graph?_eq_some hg
  obtain ⟨hids, hbound, hpaired⟩ := h.writeGraph_rows graph
    (f := fun g => { g with subjectType := some ty, subjectId := some id, dateUpdated := now })
    (fun _ => rfl) (fun _ _ => by simp [Paired])
  have carries {graphId : Option GraphId} {subjectType subjectId : Option String}
      (hc : Carries s.graphs graphId subjectType subjectId) :=
    carries_backfill ty id
      (f := fun g => { g with subjectType := some ty, subjectId := some id, dateUpdated := now })
      h.ids hmem hgid hty (fun _ => ⟨rfl, rfl, rfl⟩) hc
  have remembers {graphId : Option GraphId} {subjectType subjectId : Option String}
      (hr : Remembers s.graphs graphId subjectType subjectId) :=
    remembers_bound
      (f := fun g => { g with subjectType := some ty, subjectId := some id, dateUpdated := now })
      h.ids hmem hgid hty hsid (fun _ => rfl) hr
  refine ⟨Lifecycle.distinct_relabel (relabels_fillIn graph (some ty) (some id)) h.distinct, hids,
    hbound, hpaired, ?_, ?_, fun w hw => remembers (h.handles w hw),
    fun p hp m cluster hin => remembers (h.calls p hp m cluster hin)⟩
  · intro t' ht'
    obtain ⟨t, ht, rfl⟩ := Rows.mem_updateWhere.mp ht'
    have hc := carries (h.tasks t ht)
    split
    · rename_i hsel
      rw [if_pos hsel, if_pos hsel] at hc
      exact hc
    · rename_i hsel
      rw [if_neg hsel, if_neg hsel] at hc
      exact hc
  · intro w' hw'
    obtain ⟨w, hw, rfl⟩ := Rows.mem_updateWhere.mp hw'
    have hc := carries (h.workflows w hw)
    split
    · rename_i hsel
      rw [if_pos hsel, if_pos hsel] at hc
      exact hc
    · rename_i hsel
      rw [if_neg hsel, if_neg hsel] at hc
      exact hc

theorem Agreement.advance (h : Agreement s) {p : AsyncProcess} {t : Enqueueing} {phase : AsyncPhase}
    (hp : p ∈ s.calls) (hadv : Advance conf s p env t phase) :
    Agreement t ∧ ∀ m cluster, phase = .inserting m cluster →
      Remembers t.graphs m.graphId m.subjectType m.subjectId := by
  cases hadv with
  | reclaimed hk =>
    refine ⟨h.withLife (Lifecycle.distinct_relabel (relabels_unkey _) h.distinct) ?_, by rintro _ _ ⟨⟩⟩
    intro t' ht'
    obtain ⟨t, ht, rfl⟩ := List.mem_map.mp ht'
    split
    · exact h.tasks t ht
    · exact h.tasks t ht
  | looking | preparing | found | returned | raised => exact ⟨h, by rintro _ _ ⟨⟩⟩
  | prepared hm =>
    refine ⟨h, ?_⟩
    rintro m cluster ⟨⟩
    exact (metadata_carries hm).remembers
  | created hq hc => exact ⟨h.createAndEnqueue (h.calls p hp _ _ hq) hc, by rintro _ _ ⟨⟩⟩

theorem Agreement.next (h : Agreement s) {e : EnqueueEvent} (hstep : s.step conf limit env e = some s') :
    Agreement s' := by
  have heff := step_effect hstep
  cases heff with
  | @moved e life hf hl =>
    apply h.withLife (Lifecycle.step_rows h.distinct hl).1
    apply h.tasks_step hl
    intro m hm gid hgid
    cases e with
    | asyncTask metadata cluster trace | scheduleTask metadata cluster =>
      simp only [foreign, Bool.and_eq_true, Option.isNone_iff_eq_none] at hf
      rw [← Option.some.inj hm, hf.2] at hgid
      cases hgid
    | _ => cases hm
  | called call =>
    refine ⟨h.distinct, h.ids, h.bound, h.paired, h.tasks, h.workflows, h.handles, ?_⟩
    intro p' hp' m cluster hin
    rcases List.mem_append.mp hp' with hp' | hp'
    · exact h.calls p' hp' m cluster hin
    · rw [List.mem_singleton.mp hp'] at hin
      cases hin
  | advanced hp hadv =>
    obtain ⟨ht, hphase⟩ := h.advance (List.mem_of_getElem? hp) hadv
    exact ht.setPhase hphase
  | @started plan subject g hid hs =>
    apply h.withGraphs
    · exact fun k hk => ⟨k, List.mem_append_left _ hk, rfl, rfl, rfl⟩
    · rw [List.map_append, List.nodup_append]
      refine ⟨h.ids, List.nodup_singleton _, ?_⟩
      intro a ha b hb
      obtain ⟨k, hk, rfl⟩ := List.mem_map.mp ha
      rw [List.map_singleton, List.mem_singleton] at hb
      rw [hb, hid]
      exact Nat.ne_of_lt (h.bound k hk)
    · intro k hk
      rw [List.length_append, List.length_singleton]
      rcases List.mem_append.mp hk with hk | hk
      · exact Nat.lt_succ_of_lt (h.bound k hk)
      · rw [List.mem_singleton.mp hk, hid]
        exact Nat.lt_succ_self _
    · intro k hk
      rcases List.mem_append.mp hk with hk | hk
      · exact h.paired k hk
      · rw [List.mem_singleton.mp hk]
        exact paired_parsed hs
  | dispatched hg hm hl =>
    apply h.withLife (Lifecycle.step_rows h.distinct hl).1
    apply h.tasks_step hl
    intro m he
    obtain rfl := Option.some.inj he
    exact nodeMetadata_carries hg hm
  | graphMoved graph status =>
    obtain ⟨hids, hbound, hpaired⟩ := h.writeGraph_rows graph
      (f := fun g => { g with status }) (fun _ => rfl) (fun _ hp => hp)
    refine h.withGraphs ?_ hids hbound hpaired
    intro g hg
    have hmem := Rows.mem_updateWhere_of_mem (p := fun g : GraphRows => g.graph.id = graph)
      (f := fun g => { g with graph := { g.graph with status } }) hg
    refine ⟨_, hmem, ?_⟩
    split
    · exact ⟨rfl, rfl, rfl⟩
    · exact ⟨rfl, rfl, rfl⟩
  | bound hne hg hty hsid => exact h.bound_subject hg hty hsid
  | @inserted workflow row graph node subject ty id labels entry hs hl hgraph hty hid =>
    have hc : Carries s.graphs entry.row.graphId entry.row.subjectType entry.row.subjectId := by
      rw [hgraph, hty, hid]
      exact memberLabels_carries hl
    refine ⟨h.distinct, h.ids, h.bound, h.paired, h.tasks, ?_, ?_, h.calls⟩
    · intro w hw
      rcases List.mem_append.mp hw with hw | hw
      · exact h.workflows w hw
      · exact List.mem_singleton.mp hw ▸ hc
    · intro w hw
      rcases List.mem_append.mp hw with hw | hw
      · exact h.handles w hw
      · exact List.mem_singleton.mp hw ▸ hc.remembers
  | @loaded w hw =>
    refine ⟨h.distinct, h.ids, h.bound, h.paired, h.tasks, h.workflows, ?_, h.calls⟩
    intro v hv
    rcases List.mem_append.mp hv with hv | hv
    · exact h.handles v hv
    · exact List.mem_singleton.mp hv ▸ (h.workflows w hw).remembers
  | @joined i func args kwargs options raises w m s' hw hi hc =>
    apply h.createAndEnqueue _ hc
    rw [hi.graphId, hi.subjectType, hi.subjectId]
    exact h.handles w hw

theorem reach_agreement (h : (enqueueSystem conf limit).Reach s) : Agreement s := by
  apply h.invariant Agreement
  · rintro s rfl
    have hreach : (lifecycleSystem 0).Reach {} := .init rfl
    refine ⟨Lifecycle.reach_distinct hreach, List.nodup_nil, ?_, ?_, ?_, ?_, ?_, ?_⟩
    all_goals exact fun x hx => absurd hx List.not_mem_nil
  · rintro s ⟨e, env⟩ s' hs - hstep
    exact hs.next hstep

/-- The row of a graph is found after a step, and with its subject when it had one. -/
theorem Agreement.subject_kept (h : Agreement s) {e : EnqueueEvent}
    (hstep : s.step conf limit env e = some s') {g : GraphRows} (hg : g ∈ s.graphs)
    (hsub : g.graph.subjectType ≠ none) :
    ∃ g', s'.graph? g.graph.id = some g' ∧ g'.graph.subjectType = g.graph.subjectType ∧
      g'.graph.subjectId = g.graph.subjectId := by
  have found {g' : GraphRows} (hg' : g' ∈ s'.graphs) (hid : g'.graph.id = g.graph.id)
      (hty : g'.graph.subjectType = g.graph.subjectType) (hsid : g'.graph.subjectId = g.graph.subjectId) :
      ∃ g', s'.graph? g.graph.id = some g' ∧ g'.graph.subjectType = g.graph.subjectType ∧
        g'.graph.subjectId = g.graph.subjectId := by
    refine ⟨g', ?_, hty, hsid⟩
    rw [← hid]
    exact Rows.get?_of_mem (h.next hstep).ids hg'
  have written (graph : GraphId) {f : QraftGraph → QraftGraph} (hid : ∀ g, (f g).id = g.id)
      (hf : g.graph.id = graph → (f g.graph).subjectType = g.graph.subjectType ∧
        (f g.graph).subjectId = g.graph.subjectId) :
      ∃ g' ∈ (s.writeGraph graph f).graphs, g'.graph.id = g.graph.id ∧
        g'.graph.subjectType = g.graph.subjectType ∧ g'.graph.subjectId = g.graph.subjectId := by
    refine ⟨_, Rows.mem_updateWhere_of_mem hg, ?_⟩
    split
    · rename_i he
      exact ⟨hid g.graph, hf (of_decide_eq_true he)⟩
    · exact ⟨rfl, rfl, rfl⟩
  have heff := step_effect hstep
  cases heff with
  | moved | called | dispatched | inserted | loaded => exact found hg rfl rfl rfl
  | @advanced i raises p t phase hp hadv =>
    have hgraphs : t.graphs = s.graphs := by
      cases hadv with
      | reclaimed | looking | preparing | found | returned | prepared | raised => rfl
      | created hq hc =>
        obtain ⟨m, -, -, rfl⟩ := createAndEnqueue_eq_ok hc
        rfl
    exact found (hgraphs ▸ hg) rfl rfl rfl
  | started => exact found (List.mem_append_left _ hg) rfl rfl rfl
  | graphMoved graph status =>
    obtain ⟨g', hg', hid, hty, hsid⟩ := written graph (f := fun g => { g with status })
      (fun _ => rfl) (fun _ => ⟨rfl, rfl⟩)
    exact found hg' hid hty hsid
  | @bound graph subject ty id k hne hk hkty hksid =>
    obtain ⟨hkmem, hkid⟩ := graph?_eq_some hk
    obtain ⟨g', hg', hid, hty, hsid⟩ := written graph
      (f := fun g => { g with subjectType := some ty, subjectId := some id, dateUpdated := env.now })
      (fun _ => rfl) (by
        intro he
        obtain rfl : g = k := Rows.eq_of_key_eq h.ids hg hkmem (he.trans hkid.symm)
        exact absurd hkty hsub)
    exact found hg' hid hty hsid
  | joined hw hi hc =>
    obtain ⟨m, -, -, rfl⟩ := createAndEnqueue_eq_ok hc
    exact found hg rfl rfl rfl

/-- Between any two transactions the tasks, chains, iters and batches of a graph carry the subject
of its row, which no step replaces once it is there. -/
theorem subjects_agree (h : (enqueueSystem conf limit).Reach s) :
    (∀ g ∈ s.graphs,
      (∀ t ∈ s.life.store.tasks, t.graphId = some g.graph.id →
        t.subjectType = g.graph.subjectType ∧ t.subjectId = g.graph.subjectId) ∧
      (∀ w ∈ s.workflows, w.row.graphId = some g.graph.id →
        w.row.subjectType = g.graph.subjectType ∧ w.row.subjectId = g.graph.subjectId)) ∧
    ∀ e env s', s.step conf limit env e = some s' → ∀ g ∈ s.graphs,
      (g.graph.subjectType ≠ none ∨ g.graph.subjectId ≠ none) →
        ∃ g', s'.graph? g.graph.id = some g' ∧ g'.graph.subjectType = g.graph.subjectType ∧
          g'.graph.subjectId = g.graph.subjectId := by
  have hs := reach_agreement h
  have agrees {g : GraphRows} (hg : g ∈ s.graphs) {ty id : Option String}
      (hc : Carries s.graphs (some g.graph.id) ty id) :
      ty = g.graph.subjectType ∧ id = g.graph.subjectId := by
    obtain ⟨k, hk, hkid, hsame⟩ := hc g.graph.id rfl
    obtain rfl : k = g := Rows.eq_of_key_eq hs.ids hk hg hkid
    exact hsame
  refine ⟨fun g hg => ⟨?_, ?_⟩, ?_⟩
  · intro t ht hgraph
    have hc := hs.tasks t ht
    rw [hgraph] at hc
    exact agrees hg hc
  · intro w hw hgraph
    have hc := hs.workflows w hw
    rw [hgraph] at hc
    exact agrees hg hc
  · intro e env s' hstep g hg hsub
    apply hs.subject_kept hstep hg
    rcases hsub with hty | hid
    · exact hty
    · exact fun hnone => hid ((hs.paired g hg).mp hnone)

/-- Labels are read and a chain's handle is made, the subject is bound, and only then are the call's
task, the node's and the chain's inserted. -/
def lateMembers : List (EnqueueEvent × Env) :=
  let plan : GraphPlan :=
    { nodes := [{ key := "score", func := "app.score", recovery := .transactional }] }
  let call : AsyncCall := { func := "app.audit", options := { graph := some 0, node := some "score" } }
  [.start plan none, .asyncTask call, .proceed 0 none, .proceed 0 none,
    .create (.chain 0) {} (some 0) none none, .bindSubject 0 (some ("worksheet", "4117")),
    .dispatchNode 0 "score", .proceed 0 none, .createMember 0 "app.extract" [] [] {} none].map
      fun e => (e, { now := 1 })

theorem subjects_agree_late : ∃ s, (enqueueSystem {} 1).Reach s ∧
    s.life.store.tasks.length = 3 ∧ ∃ g ∈ s.graphs, g.graph.subjectType = some "worksheet" ∧
      ∀ t ∈ s.life.store.tasks, t.graphId = some g.graph.id →
        t.subjectType = g.graph.subjectType ∧ t.subjectId = g.graph.subjectId := by
  obtain ⟨s, hr, hp⟩ := StepSystem.exists_reach_of_run (enqueueSystem {} 1) lateMembers (.init rfl)
    (fun s => s.life.store.tasks.length = 3 &&
      s.graphs.any fun g => g.graph.subjectType = some "worksheet") (by decide)
  simp only [Bool.and_eq_true, decide_eq_true_eq, List.any_eq_true] at hp
  obtain ⟨hlen, g, hg, hsub⟩ := hp
  exact ⟨s, hr, hlen, g, hg, hsub, ((subjects_agree hr).1 g hg).1⟩

end
end Enqueueing
end Qraft
