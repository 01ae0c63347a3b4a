import Qraft.Graphs.Outbox

/-! Settlement hooks are queued once: the outbox simulates delivery through a claim, as
long as no retention batch deletes a dispatch row whose settlement is still held. -/
namespace Qraft.Outbox
open GraphState

/-- Every graph there ever was. -/
def history (w : Outbox) : List GraphState := w.graphs ++ w.deleted

/-- Rows agree with each other: dispatches with the queue, the queue and what is held with
settlement rows, and every settlement of a deleted graph was queued. -/
structure Sound (w : Outbox) : Prop where
  ids : (w.history.map fun s => s.graph.id).Nodup
  fresh : ∀ s ∈ w.history, s.graph.id < w.nextId
  ledger : ∀ s ∈ w.history, s.Ledger
  held : ∀ r ∈ w.held, ∃ s ∈ w.history, r ∈ s.settlements
  queued : ∀ m ∈ w.queue, ∃ s ∈ w.history, ∃ r ∈ s.settlements,
    m.key = r.key ∧ m.hookPath = r.hookPath ∧ m.hookKwargs = r.hookKwargs ∧ m.context = r.context
  claimed : ∀ d ∈ w.dispatches, ∃ m ∈ w.queue, m.key = d.key
  delivered : ∀ s ∈ w.deleted, ∀ r ∈ s.settlements, ∃ m ∈ w.queue, m.key = r.key

theorem dispatched_iff {w : Outbox} {r : QraftGraphSettlement} :
    w.dispatched r = true ↔ ∃ d ∈ w.dispatches, d.key = r.key := by
  simp [dispatched]

theorem graph?_eq_some {w : Outbox} {id : GraphId} {s : GraphState} (h : w.graph? id = some s) :
    s ∈ w.graphs ∧ s.graph.id = id :=
  Rows.get?_eq_some h

theorem mem_history_of_graph {w : Outbox} {s : GraphState} (h : s ∈ w.graphs) : s ∈ w.history :=
  List.mem_append_left _ h

theorem Sound.eq_of_id {w : Outbox} (h : w.Sound) {s t : GraphState} (hs : s ∈ w.history)
    (ht : t ∈ w.history) (he : s.graph.id = t.graph.id) : s = t :=
  Rows.eq_of_key_eq h.ids hs ht he

theorem settlementOf_mem {w : Outbox} {g : QraftGraph} {r : QraftGraphSettlement}
    (h : w.settlementOf g = some r) : ∃ s ∈ w.graphs, r ∈ s.settlements := by
  obtain ⟨_, _, h⟩ := Option.bind_eq_some_iff.mp h
  obtain ⟨s, hs, h⟩ := Option.bind_eq_some_iff.mp h
  exact ⟨s, (graph?_eq_some hs).1, List.mem_of_find?_eq_some h⟩

theorem mem_pendingSettlements {w : Outbox} {cutoff : Time} {r : QraftGraphSettlement} :
    r ∈ w.pendingSettlements cutoff ↔ ∃ s ∈ w.graphs, r ∈ s.settlements ∧
      (∃ d, r.dateCreated = some d ∧ d < cutoff) ∧ ¬ w.dispatched r = true := by
  simp [pendingSettlements, Option.any_eq_true]

/-- A change that keeps the tables but for more held rows and lost calls or dispatches. -/
theorem Sound.of_same_graphs {w w' : Outbox} (h : w.Sound) (hg : w'.graphs = w.graphs)
    (hd : w'.deleted = w.deleted) (hn : w'.nextId = w.nextId) (hq : w'.queue = w.queue)
    (hdis : ∀ d ∈ w'.dispatches, d ∈ w.dispatches)
    (hheld : ∀ r ∈ w'.held, r ∈ w.held ∨ ∃ s ∈ w.graphs, r ∈ s.settlements) : w'.Sound := by
  have hh : w'.history = w.history := by rw [history, history, hg, hd]
  constructor
  · rw [hh]
    exact h.ids
  · rw [hh, hn]
    exact h.fresh
  · rw [hh]
    exact h.ledger
  · rw [hh]
    intro r hr
    rcases hheld r hr with hr | ⟨s, hs, hr⟩
    · exact h.held r hr
    · exact ⟨s, mem_history_of_graph hs, hr⟩
  · rw [hh, hq]
    exact h.queued
  · rw [hq]
    exact fun d hd => h.claimed d (hdis d hd)
  · rw [hd, hq]
    exact h.delivered

section Save
variable {w : Outbox} {id : GraphId} {s s' : GraphState}

theorem mem_saveGraph (h : w.Sound) (hs : w.graph? id = some s) {t : GraphState} :
    t ∈ (w.saveGraph id s').graphs ↔ (t ∈ w.graphs ∧ t ≠ s) ∨ t = s' := by
  obtain ⟨hmem, hid⟩ := graph?_eq_some hs
  apply Rows.mem_updateWhere_single hmem
  intro r hr
  rw [decide_eq_true_iff]
  constructor
  · intro hrid
    exact h.eq_of_id (mem_history_of_graph hr) (mem_history_of_graph hmem) (hrid.trans hid.symm)
  · rintro rfl
    exact hid

/-- Rewriting one graph by a change that keeps its ledger. -/
theorem Sound.save (h : w.Sound) (hs : w.graph? id = some s) (hk : Keeps s s') :
    (w.saveGraph id s').Sound := by
  obtain ⟨hmem, hid⟩ := graph?_eq_some hs
  have hids : (w.saveGraph id s').graphs.map (fun t => t.graph.id) =
      w.graphs.map fun t => t.graph.id := by
    apply Rows.map_updateWhere (fun t : GraphState => t.graph.id)
    intro r _ hr
    have hrid : r.graph.id = id := by simpa using hr
    rw [hk.id, hid, hrid]
  have hgrow : ∀ t ∈ w.history, ∃ t' ∈ (w.saveGraph id s').history,
      ∀ r ∈ t.settlements, r ∈ t'.settlements := by
    intro t ht
    rcases List.mem_append.mp ht with ht | ht
    · by_cases he : t = s
      · subst he
        exact ⟨s', mem_history_of_graph ((mem_saveGraph h hs).mpr (.inr rfl)), hk.settlements⟩
      · exact ⟨t, mem_history_of_graph ((mem_saveGraph h hs).mpr (.inl ⟨ht, he⟩)), fun _ hr => hr⟩
    · exact ⟨t, List.mem_append_right _ ht, fun _ hr => hr⟩
  have hfrom : ∀ t ∈ (w.saveGraph id s').history, t ∈ w.history ∨ t = s' := by
    intro t ht
    rcases List.mem_append.mp ht with ht | ht
    · rcases (mem_saveGraph h hs).mp ht with ⟨ht, _⟩ | rfl
      · exact .inl (mem_history_of_graph ht)
      · exact .inr rfl
    · exact .inl (List.mem_append_right _ ht)
  constructor
  · rw [history, List.map_append, hids, ← List.map_append]
    exact h.ids
  · intro t ht
    rcases hfrom t ht with ht | rfl
    · exact h.fresh t ht
    · rw [hk.id]
      exact h.fresh s (mem_history_of_graph hmem)
  · intro t ht
    rcases hfrom t ht with ht | rfl
    · exact h.ledger t ht
    · exact hk.ledger (h.ledger s (mem_history_of_graph hmem))
  · intro r hr
    obtain ⟨t, ht, hrt⟩ := h.held r hr
    obtain ⟨t', ht', hg⟩ := hgrow t ht
    exact ⟨t', ht', hg r hrt⟩
  · intro m hm
    obtain ⟨t, ht, r, hr, hm⟩ := h.queued m hm
    obtain ⟨t', ht', hg⟩ := hgrow t ht
    exact ⟨t', ht', r, hg r hr, hm⟩
  · exact h.claimed
  · exact h.delivered

end Save

/-- The outbox as delivery through a claim. -/
def view (w : Outbox) : ClaimOnce.State (GraphId × Nat) where
  live := {k | ∃ s ∈ w.graphs, ∃ r ∈ s.settlements, r.key = k}
  held := {k | ∃ r ∈ w.held, r.key = k}
  claims := {k | ∃ d ∈ w.dispatches, d.key = k}
  log := w.queue.map fun m => m.key

/-- A settlement's key names its graph. -/
theorem Sound.key_fst {w : Outbox} (h : w.Sound) {s : GraphState} (hs : s ∈ w.history)
    {r : QraftGraphSettlement} (hr : r ∈ s.settlements) : r.key.1 = s.graph.id :=
  ((h.ledger s hs).context r hr).1

/-- A logged key belongs to a graph there was. -/
theorem Sound.log_origin {w : Outbox} (h : w.Sound) {k : GraphId × Nat} (hk : k ∈ w.view.log) :
    ∃ s ∈ w.history, s.graph.id = k.1 ∧ ∃ r ∈ s.settlements, r.key = k := by
  obtain ⟨m, hm, rfl⟩ := List.mem_map.mp hk
  obtain ⟨s, hs, r, hr, hkey, _⟩ := h.queued m hm
  rw [hkey]
  exact ⟨s, hs, (h.key_fst hs hr).symm, r, hr, rfl⟩

theorem setTasks_keeps (s : GraphState) (tasks : List QraftTask) : Keeps s (setTasks s tasks) :=
  keeps_of_eq rfl rfl rfl

theorem bridge_keeps (s : GraphState) (h : s.Ledger) (hs : s.graph.settledAt ≠ none) :
    Keeps s s.recordSettlement := by
  rw [recordSettlement_of_terminal h]
  · exact .refl s
  · by_contra hlive
    exact hs (h.settledAt.mpr hlive)

theorem Sound.start {conf : RetryDefaults} {w : Outbox} (h : w.Sound) {plan : GraphPlan}
    {now : Time} {s : GraphState} (hs : GraphState.start conf plan w.nextId now = .ok s) :
    Sound { w with graphs := w.graphs ++ [s], nextId := w.nextId + 1 } := by
  obtain ⟨hledger, hid⟩ := start_ledger hs
  have hfrom : ∀ t ∈ history { w with graphs := w.graphs ++ [s], nextId := w.nextId + 1 },
      t ∈ w.history ∨ t = s := by
    intro t ht
    simp only [history, List.append_assoc, List.mem_append, List.mem_singleton] at ht ⊢
    tauto
  have hinto : ∀ t ∈ w.history,
      t ∈ history { w with graphs := w.graphs ++ [s], nextId := w.nextId + 1 } := by
    intro t ht
    simp only [history, List.mem_append] at ht ⊢
    tauto
  constructor
  · have hperm : (history { w with graphs := w.graphs ++ [s], nextId := w.nextId + 1 }).Perm
        (s :: w.history) := by
      simp [history]
    rw [(hperm.map _).nodup_iff, List.map_cons, List.nodup_cons]
    refine ⟨fun hmem => ?_, h.ids⟩
    obtain ⟨t, ht, he⟩ := List.mem_map.mp hmem
    exact absurd (he.trans hid) (ne_of_lt (h.fresh t ht))
  · intro t ht
    rcases hfrom t ht with ht | rfl
    · exact Nat.lt_succ_of_lt (h.fresh t ht)
    · rw [hid]
      exact Nat.lt_succ_self _
  · intro t ht
    rcases hfrom t ht with ht | rfl
    · exact h.ledger t ht
    · exact hledger
  · intro r hr
    obtain ⟨t, ht, hrt⟩ := h.held r hr
    exact ⟨t, hinto t ht, hrt⟩
  · intro m hm
    obtain ⟨t, ht, hrt⟩ := h.queued m hm
    exact ⟨t, hinto t ht, hrt⟩
  · exact h.claimed
  · exact h.delivered

/-- What an offer leaves when the settlement had no claim. -/
theorem dispatchHookOnce_new {w : Outbox} {r : QraftGraphSettlement} (now : Time)
    (hn : ¬ w.dispatched r = true) : ∃ d m, d.key = r.key ∧ m.key = r.key ∧
      m.hookPath = r.hookPath ∧ m.hookKwargs = r.hookKwargs ∧ m.context = r.context ∧
      w.dispatchHookOnce r now = { w with
        dispatches := w.dispatches ++ [d], queue := w.queue ++ [m], nextId := w.nextId + 2 } := by
  unfold dispatchHookOnce
  rw [if_neg hn]
  exact ⟨_, _, rfl, rfl, rfl, rfl, rfl, rfl⟩

theorem Sound.offer {w : Outbox} (h : w.Sound) {r : QraftGraphSettlement} (hr : r ∈ w.held)
    (now : Time) {held : List QraftGraphSettlement} (hheld : ∀ x ∈ held, x ∈ w.held) :
    Sound { w.dispatchHookOnce r now with held } := by
  by_cases hd : w.dispatched r = true
  · rw [dispatchHookOnce, if_pos hd]
    exact h.of_same_graphs rfl rfl rfl rfl (fun _ h => h) fun x hx => .inl (hheld x hx)
  · obtain ⟨d, m, hdk, hmk, hpath, hkwargs, hctx, he⟩ := dispatchHookOnce_new now hd
    rw [he]
    constructor
    · exact h.ids
    · exact fun s hs => Nat.lt_of_lt_of_le (h.fresh s hs) (Nat.le_add_right _ 2)
    · exact h.ledger
    · exact fun x hx => h.held x (hheld x hx)
    · intro x hx
      rcases List.mem_append.mp hx with hx | hx
      · exact h.queued x hx
      · obtain rfl := List.mem_singleton.mp hx
        obtain ⟨s, hs, hrs⟩ := h.held r hr
        exact ⟨s, hs, r, hrs, hmk, hpath, hkwargs, hctx⟩
    · intro x hx
      rcases List.mem_append.mp hx with hx | hx
      · obtain ⟨y, hy, hyk⟩ := h.claimed x hx
        exact ⟨y, List.mem_append_left _ hy, hyk⟩
      · obtain rfl := List.mem_singleton.mp hx
        exact ⟨m, List.mem_append_right _ (List.mem_singleton.mpr rfl), hmk.trans hdk.symm⟩
    · intro s hs x hx
      obtain ⟨y, hy, hyk⟩ := h.delivered s hs x hx
      exact ⟨y, List.mem_append_left _ hy, hyk⟩

theorem Sound.sweepGraphs {w : Outbox} (h : w.Sound) (ids : List GraphId) (cutoff : Time) :
    (w.sweepGraphs ids cutoff).Sound := by
  have hperm : (w.sweepGraphs ids cutoff).history.Perm w.history := by
    have hsplit := List.filter_append_perm
      (fun s : GraphState => decide (s.graph.id ∈ ids) && w.sweepable cutoff s) w.graphs
    simp only [history, Outbox.sweepGraphs]
    refine (List.perm_append_comm_assoc _ _ _).trans ?_
    refine (List.Perm.append_left _ (List.perm_append_comm.trans hsplit)).trans ?_
    exact List.perm_append_comm
  have hmem : ∀ {s}, s ∈ (w.sweepGraphs ids cutoff).history ↔ s ∈ w.history := hperm.mem_iff
  constructor
  · exact ((hperm.map _).nodup_iff).mpr h.ids
  · exact fun s hs => h.fresh s (hmem.mp hs)
  · exact fun s hs => h.ledger s (hmem.mp hs)
  · intro r hr
    obtain ⟨s, hs, hrs⟩ := h.held r hr
    exact ⟨s, hmem.mpr hs, hrs⟩
  · intro m hm
    obtain ⟨s, hs, hrs⟩ := h.queued m hm
    exact ⟨s, hmem.mpr hs, hrs⟩
  · exact h.claimed
  · intro s hs r hr
    rcases List.mem_append.mp hs with hs | hs
    · exact h.delivered s hs r hr
    · obtain ⟨_, hgone⟩ := List.mem_filter.mp hs
      simp only [sweepable, Bool.and_eq_true, List.all_eq_true] at hgone
      obtain ⟨d, hd, hdk⟩ := dispatched_iff.mp (hgone.2.2 r hr)
      obtain ⟨m, hm, hmk⟩ := h.claimed d hd
      exact ⟨m, hm, hmk.trans hdk⟩

/-- Every step keeps the tables sound. -/
theorem step_sound {conf : RetryDefaults} {w w' : Outbox} {now : Time} {e : OutboxEvent}
    (h : w.Sound) (hs : w.step conf now e = some w') : w'.Sound := by
  cases e with
  | start plan =>
    obtain ⟨s, hst, rfl⟩ := Option.map_eq_some_iff.mp hs
    exact h.start (Transaction.toOption_eq_some.mp hst)
  | call id event =>
    obtain ⟨s, hg, hs⟩ := Option.bind_eq_some_iff.mp hs
    obtain ⟨r, hr, rfl⟩ := Option.map_eq_some_iff.mp hs
    have hsave := h.save hg (call_keeps (Transaction.toOption_eq_some.mp hr))
    exact hsave.of_same_graphs rfl rfl rfl rfl (fun _ h => h) fun _ h => .inl h
  | tasks id rows =>
    obtain ⟨s, hg, rfl⟩ := Option.map_eq_some_iff.mp hs
    exact h.save hg (setTasks_keeps s rows)
  | announce i =>
    obtain ⟨g, _, rfl⟩ := Option.map_eq_some_iff.mp hs
    refine h.of_same_graphs rfl rfl rfl rfl (fun _ h => h) ?_
    intro r hr
    rcases List.mem_append.mp hr with hr | hr
    · exact .inl hr
    · exact .inr (settlementOf_mem (Option.mem_toList.mp hr))
  | loseCall i =>
    cases hs
    exact h.of_same_graphs rfl rfl rfl rfl (fun _ h => h) fun _ h => .inl h
  | bridge id =>
    obtain ⟨s, hg, rfl⟩ := Option.map_eq_some_iff.mp hs
    split
    · rename_i hset
      have hledger := h.ledger s (mem_history_of_graph (graph?_eq_some hg).1)
      exact h.save hg (bridge_keeps s hledger hset)
    · exact h
  | replay cutoff =>
    cases hs
    refine h.of_same_graphs rfl rfl rfl rfl (fun _ h => h) ?_
    intro r hr
    rcases List.mem_append.mp hr with hr | hr
    · exact .inl hr
    · obtain ⟨s, hs, hrs, _⟩ := mem_pendingSettlements.mp hr
      exact .inr ⟨s, hs, hrs⟩
  | offer i =>
    obtain ⟨r, hr, rfl⟩ := Option.map_eq_some_iff.mp hs
    exact h.offer (List.mem_of_getElem? hr) now fun x hx => List.mem_of_mem_eraseIdx hx
  | drop i =>
    cases hs
    exact h.of_same_graphs rfl rfl rfl rfl (fun _ h => h) fun x hx =>
      .inl (List.mem_of_mem_eraseIdx hx)
  | sweepGraphs ids cutoff =>
    cases hs
    exact h.sweepGraphs ids cutoff
  | sweepDispatches ids cutoff =>
    cases hs
    exact h.of_same_graphs rfl rfl rfl rfl (fun d hd => (List.mem_filter.mp hd).1) fun _ h => .inl h

theorem sound_empty : Sound {} := by
  constructor <;> simp [history]

/-- The step deletes no dispatch row whose settlement a call or a replay has read and
not offered yet. -/
def SparesHeld (w : Outbox) (e : OutboxEvent × Time) : Prop :=
  match e.1 with
  | .sweepDispatches ids cutoff => ∀ d ∈ w.dispatches, d.id ∈ ids → w.prunable cutoff d = true →
      ∀ r ∈ w.held, r.key ≠ d.key
  | _ => True

instance (w : Outbox) (e : OutboxEvent × Time) : Decidable (w.SparesHeld e) := by
  unfold SparesHeld
  split <;> infer_instance

/-- A step that only reads, forgets or deletes graphs is internal. -/
private theorem internal_of_same {w w' : Outbox} (hlive : ∀ k ∈ w'.view.live, k ∈ w.view.live)
    (hheld : ∀ r ∈ w'.held, r ∈ w.held ∨ ∃ s ∈ w.graphs, r ∈ s.settlements)
    (hd : w'.dispatches = w.dispatches) (hq : w'.queue = w.queue) :
    ClaimOnce.Step w.view w'.view := by
  apply ClaimOnce.Step.internal
  · exact fun k hk => .inl (hlive k hk)
  · rintro k ⟨r, hr, rfl⟩
    rcases hheld r hr with hr | ⟨s, hs, hr⟩
    · exact .inl ⟨r, hr, rfl⟩
    · exact .inr ⟨s, hs, r, hr, rfl⟩
  · rintro k ⟨d, hmem, rfl⟩
    exact .inl ⟨d, hd ▸ hmem, rfl⟩
  · rw [view, view, hq]

/-- Rewriting one graph brings in settlement keys that were never logged. -/
private theorem internal_of_save {w : Outbox} (h : w.Sound) {id : GraphId} {s s' : GraphState}
    (hs : w.graph? id = some s) (hk : Keeps s s') (calls : List QraftGraph) :
    ClaimOnce.Step w.view (view { w.saveGraph id s' with calls }) := by
  obtain ⟨hmem, _⟩ := graph?_eq_some hs
  have hhist := mem_history_of_graph hmem
  apply ClaimOnce.Step.internal
  · rintro k ⟨t, ht, r, hr, rfl⟩
    rcases (mem_saveGraph h hs).mp ht with ⟨ht, _⟩ | rfl
    · exact .inl ⟨t, ht, r, hr, rfl⟩
    · by_cases hlog : r.key ∈ w.view.log
      · obtain ⟨u, hu, hid, x, hx, hxk⟩ := h.log_origin hlog
        have hrid : r.key.1 = t.graph.id := ((hk.ledger (h.ledger s hhist)).context r hr).1
        have hsame : u = s := h.eq_of_id hu hhist (hid.trans (hrid.trans hk.id))
        subst hsame
        exact .inl ⟨u, hmem, x, hx, hxk⟩
      · exact .inr hlog
  · exact fun k hk => .inl hk
  · exact fun k hk => .inl hk
  · rfl

/-- Every step that meets the condition is a step of delivery through a claim. -/
theorem step_simulates {conf : RetryDefaults} {w w' : Outbox} {now : Time} {e : OutboxEvent}
    (h : w.Sound) (hp : w.SparesHeld (e, now)) (hs : w.step conf now e = some w') :
    ClaimOnce.Step w.view w'.view := by
  cases e with
  | start plan =>
    obtain ⟨s, hst, rfl⟩ := Option.map_eq_some_iff.mp hs
    obtain ⟨hledger, hid⟩ := start_ledger (Transaction.toOption_eq_some.mp hst)
    apply ClaimOnce.Step.internal
    · rintro k ⟨t, ht, r, hr, rfl⟩
      rcases List.mem_append.mp ht with ht | ht
      · exact .inl ⟨t, ht, r, hr, rfl⟩
      · obtain rfl := List.mem_singleton.mp ht
        refine .inr fun hlog => ?_
        obtain ⟨u, hu, huid, _⟩ := h.log_origin hlog
        have hrid : r.key.1 = w.nextId := ((hledger.context r hr).1).trans hid
        exact absurd (huid.trans hrid) (ne_of_lt (h.fresh u hu))
    · exact fun k hk => .inl hk
    · exact fun k hk => .inl hk
    · rfl
  | call id event =>
    obtain ⟨s, hg, hs⟩ := Option.bind_eq_some_iff.mp hs
    obtain ⟨r, hr, rfl⟩ := Option.map_eq_some_iff.mp hs
    exact internal_of_save h hg (call_keeps (Transaction.toOption_eq_some.mp hr)) _
  | tasks id rows =>
    obtain ⟨s, hg, rfl⟩ := Option.map_eq_some_iff.mp hs
    exact internal_of_save h hg (setTasks_keeps s rows) w.calls
  | announce i =>
    obtain ⟨g, _, rfl⟩ := Option.map_eq_some_iff.mp hs
    refine internal_of_same (fun _ hk => hk) ?_ rfl rfl
    intro r hr
    rcases List.mem_append.mp hr with hr | hr
    · exact .inl hr
    · exact .inr (settlementOf_mem (Option.mem_toList.mp hr))
  | loseCall i =>
    cases hs
    exact internal_of_same (fun _ hk => hk) (fun _ hr => .inl hr) rfl rfl
  | bridge id =>
    obtain ⟨s, hg, rfl⟩ := Option.map_eq_some_iff.mp hs
    split
    · rename_i hset
      have hledger := h.ledger s (mem_history_of_graph (graph?_eq_some hg).1)
      exact internal_of_save h hg (bridge_keeps s hledger hset) w.calls
    · exact internal_of_same (fun _ hk => hk) (fun _ hr => .inl hr) rfl rfl
  | replay cutoff =>
    cases hs
    refine internal_of_same (fun _ hk => hk) ?_ rfl rfl
    intro r hr
    rcases List.mem_append.mp hr with hr | hr
    · exact .inl hr
    · obtain ⟨s, hs, hrs, _⟩ := mem_pendingSettlements.mp hr
      exact .inr ⟨s, hs, hrs⟩
  | offer i =>
    obtain ⟨r, hr, rfl⟩ := Option.map_eq_some_iff.mp hs
    have hmem := List.mem_of_getElem? hr
    by_cases hd : w.dispatched r = true
    · rw [dispatchHookOnce, if_pos hd]
      exact internal_of_same (fun _ hk => hk) (fun x hx => .inl (List.mem_of_mem_eraseIdx hx)) rfl rfl
    · obtain ⟨d, m, hdk, hmk, _, _, _, he⟩ := dispatchHookOnce_new now hd
      rw [he]
      apply ClaimOnce.Step.deliver r.key
      · exact ⟨r, hmem, rfl⟩
      · rintro ⟨x, hx, hxk⟩
        exact hd (dispatched_iff.mpr ⟨x, hx, hxk⟩)
      · rfl
      · rintro x ⟨y, hy, rfl⟩
        exact ⟨y, List.mem_of_mem_eraseIdx hy, rfl⟩
      · rintro x ⟨y, hy, rfl⟩
        exact ⟨y, List.mem_append_left _ hy, rfl⟩
      · exact ⟨d, List.mem_append_right _ (List.mem_singleton.mpr rfl), hdk⟩
      · simp [view, hmk]
  | drop i =>
    cases hs
    exact internal_of_same (fun _ hk => hk) (fun x hx => .inl (List.mem_of_mem_eraseIdx hx)) rfl rfl
  | sweepGraphs ids cutoff =>
    cases hs
    refine internal_of_same ?_ (fun _ hr => .inl hr) rfl rfl
    rintro k ⟨s, hs, r, hr, rfl⟩
    exact ⟨s, (List.mem_filter.mp hs).1, r, hr, rfl⟩
  | sweepDispatches ids cutoff =>
    cases hs
    apply ClaimOnce.Step.internal
    · exact fun k hk => .inl hk
    · exact fun k hk => .inl hk
    · rintro k ⟨d, hd, rfl⟩
      by_cases hgone : d.id ∈ ids ∧ w.prunable cutoff d = true
      · refine .inr ⟨?_, ?_⟩
        · rintro ⟨s, hs, r, hr, hrk⟩
          have hid := (h.key_fst (mem_history_of_graph hs) hr).symm.trans (congrArg Prod.fst hrk)
          have hgraph : (w.graph? d.workflowId).isNone = true := by
            have hpr := hgone.2
            simp only [prunable, Bool.and_eq_true] at hpr
            exact hpr.2
          rw [Option.isNone_iff_eq_none, graph?, Rows.get?, List.find?_eq_none] at hgraph
          exact hgraph s hs (by simpa [WorkflowHookDispatch.key] using hid)
        · rintro ⟨r, hr, hrk⟩
          exact hp d hd hgone.1 hgone.2 r hr hrk
      · refine .inl ⟨d, List.mem_filter.mpr ⟨hd, ?_⟩, rfl⟩
        rcases not_and_or.mp hgone with hi | hpr
        · simp [hi]
        · simp [hpr]
    · rfl

theorem reach_sound {conf : RetryDefaults} {P : Outbox → OutboxEvent × Time → Prop} {w : Outbox}
    (h : (outboxSystem conf).ReachWhen P w) : w.Sound := by
  apply h.invariant Sound
  · rintro _ rfl
    exact sound_empty
  · intro w e w' hw _ hs
    exact step_sound hw hs

theorem reach_once {conf : RetryDefaults} {w : Outbox}
    (h : (outboxSystem conf).ReachWhen SparesHeld w) : ClaimOnce.Once w.view := by
  apply h.invariant_of Sound (fun w => ClaimOnce.Once w.view)
  · exact fun w hw => reach_sound hw
  · rintro _ rfl
    exact ClaimOnce.Once.empty rfl
  · intro w e w' hsound honce hp hs
    exact honce.step (step_simulates hsound hp hs)

/-- A row that is due and unclaimed is read by the next replay, and its offer queues the
hook with the row's own context. -/
private theorem replay_delivers {w : Outbox} (h : w.Sound) (conf : RetryDefaults)
    {s : GraphState} (hs : s ∈ w.graphs) {r : QraftGraphSettlement} (hr : r ∈ s.settlements)
    (hq : ∀ m ∈ w.queue, m.key ≠ r.key) {cutoff : Time}
    (hdue : ∃ d, r.dateCreated = some d ∧ d < cutoff) (now : Time) :
    ∃ w₁ i w₂, w.step conf now (.replay cutoff) = some w₁ ∧
      w₁.step conf now (.offer i) = some w₂ ∧ ∃ m ∈ w₂.queue, m.key = r.key ∧ m.context = r.context := by
  have hnew : ¬ w.dispatched r = true := by
    intro hd
    obtain ⟨d, hd, hk⟩ := dispatched_iff.mp hd
    obtain ⟨m, hm, hmk⟩ := h.claimed d hd
    exact hq m hm (hmk.trans hk)
  have hmem : r ∈ w.held ++ w.pendingSettlements cutoff :=
    List.mem_append_right _ (mem_pendingSettlements.mpr ⟨s, hs, hr, hdue, hnew⟩)
  obtain ⟨i, hi⟩ := List.mem_iff_getElem?.mp hmem
  let w₁ : Outbox := { w with held := w.held ++ w.pendingSettlements cutoff }
  obtain ⟨d, m, _, hmk, _, _, hctx, he⟩ := @dispatchHookOnce_new w₁ r now hnew
  refine ⟨w₁, i, { w₁.dispatchHookOnce r now with held := w₁.held.eraseIdx i }, rfl, ?_, m, ?_,
    hmk, hctx⟩
  · have hheld : w₁.held[i]? = some r := hi
    simp only [step, hheld, Option.map_some]
  · have hqueue : m ∈ (w₁.dispatchHookOnce r now).queue := by
      rw [he]
      exact List.mem_append_right _ (List.mem_singleton.mpr rfl)
    exact hqueue

/-- The settlement outbox. In every run in which no retention batch deletes the dispatch
row of a held settlement: a status is terminal exactly when `settled_at` is set, a
generation settles once and has one row with that settlement's own context, a hook is
queued once per graph and generation with that context, and a settlement whose hook was
not queued still has its graph, from which a replay delivers it. -/
theorem settlement_hooks_once {conf : RetryDefaults} {w : Outbox}
    (h : (outboxSystem conf).ReachWhen SparesHeld w) :
    (∀ s ∈ w.graphs, s.graph.status.Terminal ↔ s.graph.settledAt ≠ none) ∧
    (∀ s ∈ w.graphs ++ w.deleted, (s.settled.map fun c => c.1).Nodup) ∧
    (∀ s ∈ w.graphs, hookPath s.graph ≠ none →
      s.settlements.map (fun r => (r.generation, r.context.outcome, r.context.nodes)) = s.settled ∧
      ∀ r ∈ s.settlements, r.context.graphId = s.graph.id ∧ r.context.generation = r.generation) ∧
    (w.queue.map fun m => (m.graphId, m.generation)).Nodup ∧
    (∀ m ∈ w.queue, ∃ s ∈ w.graphs ++ w.deleted, ∃ r ∈ s.settlements, s.graph.id = m.graphId ∧
      r.generation = m.generation ∧ m.hookPath = r.hookPath ∧ m.context = r.context) ∧
    (∀ s ∈ w.deleted, ∀ r ∈ s.settlements,
      ∃ m ∈ w.queue, m.graphId = s.graph.id ∧ m.generation = r.generation) ∧
    ∀ s ∈ w.graphs, ∀ r ∈ s.settlements,
      (∀ m ∈ w.queue, ¬ (m.graphId = s.graph.id ∧ m.generation = r.generation)) →
      ∃ d, r.dateCreated = some d ∧ ∀ cutoff > d, ∀ now, ∃ w₁ i w₂,
        w.step conf now (.replay cutoff) = some w₁ ∧ w₁.step conf now (.offer i) = some w₂ ∧
        ∃ m ∈ w₂.queue, m.graphId = s.graph.id ∧ m.generation = r.generation ∧
          m.context = r.context := by
  have hsound := reach_sound h
  have hledger : ∀ s ∈ w.graphs, s.Ledger := fun s hs => hsound.ledger s (mem_history_of_graph hs)
  refine ⟨?_, ?_, ?_, (reach_once h).nodup, ?_, ?_, ?_⟩
  · intro s hs
    rw [ne_eq, (hledger s hs).settledAt, not_not]
  · exact fun s hs => (hsound.ledger s hs).once
  · intro s hs hpath
    refine ⟨(hledger s hs).rows hpath, fun r hr => ?_⟩
    obtain ⟨_, hid, hgen, _⟩ := (hledger s hs).context r hr
    exact ⟨hid, hgen⟩
  · intro m hm
    obtain ⟨s, hs, r, hr, hkey, hpath, _, hctx⟩ := hsound.queued m hm
    refine ⟨s, hs, r, hr, ?_, (congrArg Prod.snd hkey).symm, hpath, hctx⟩
    exact (hsound.key_fst hs hr).symm.trans (congrArg Prod.fst hkey).symm
  · intro s hs r hr
    obtain ⟨m, hm, hkey⟩ := hsound.delivered s hs r hr
    have hid := hsound.key_fst (List.mem_append_right _ hs) hr
    exact ⟨m, hm, (congrArg Prod.fst hkey).trans hid, congrArg Prod.snd hkey⟩
  · intro s hs r hr hq
    have hid := hsound.key_fst (mem_history_of_graph hs) hr
    obtain ⟨d, hd⟩ := Option.ne_none_iff_exists'.mp ((hledger s hs).context r hr).2.2.2
    refine ⟨d, hd, fun cutoff hc now => ?_⟩
    have hqueue : ∀ m ∈ w.queue, m.key ≠ r.key := by
      intro m hm hk
      exact hq m hm ⟨(congrArg Prod.fst hk).trans hid, congrArg Prod.snd hk⟩
    obtain ⟨w₁, i, w₂, h₁, h₂, m, hm, hk, hctx⟩ :=
      replay_delivers hsound conf hs hr hqueue ⟨d, hd, hc⟩ now
    exact ⟨w₁, i, w₂, h₁, h₂, m, hm, (congrArg Prod.fst hk).trans hid, congrArg Prod.snd hk, hctx⟩

def gatedPlan : GraphPlan where
  onSettled := some "app.notify"
  nodes := [{ key := "send", func := "app.send", recovery := .manual, requiresApproval := true }]

theorem settlement_hooks_once_gated : ∃ w, (outboxSystem {}).ReachWhen SparesHeld w ∧
    w.queue.length = 1 ∧ w.graphs = [] ∧ (w.queue.map fun m => (m.graphId, m.generation)).Nodup := by
  obtain ⟨w, hr, hw⟩ := StepSystem.exists_reach_of_run ((outboxSystem {}).guard SparesHeld)
    [(.start gatedPlan, 0), (.call 0 (.reject "send" none), 1), (.announce 0, 2), (.offer 0, 3),
      (.sweepGraphs [0] 10, 11), (.sweepDispatches [1] 10, 11)]
    (.init rfl) (fun w => w.queue.length = 1 && w.graphs.isEmpty) (by decide)
  simp only [Bool.and_eq_true, decide_eq_true_eq, List.isEmpty_iff] at hw
  have hreach := StepSystem.reachWhen_of_guard hr
  exact ⟨w, hreach, hw.1, hw.2, (settlement_hooks_once hreach).2.2.2.1⟩

/-- The call after the commit reads its settlement and stalls; a replay delivers the hook,
retention removes the graph and then the dispatch row, and the call queues the hook again. -/
theorem settlement_hook_queued_twice : ∃ w, (outboxSystem {}).Reach w ∧
    ¬ (w.queue.map fun m => (m.graphId, m.generation)).Nodup := by
  obtain ⟨w, hr, hw⟩ := StepSystem.exists_reach_of_run (outboxSystem {})
    [(.start gatedPlan, 0), (.call 0 (.reject "send" none), 1), (.announce 0, 2), (.replay 5, 6),
      (.offer 1, 7), (.sweepGraphs [0] 10, 11), (.sweepDispatches [1] 10, 11), (.offer 0, 12)]
    (.init rfl) (fun w => ¬ (w.queue.map fun m => (m.graphId, m.generation)).Nodup) (by decide)
  exact ⟨w, hr, by simpa using hw⟩

end Qraft.Outbox
