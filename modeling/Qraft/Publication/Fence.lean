import Qraft.Publication.Receipts

/-! Receipts are fenced: a node gets at most one in a generation, from the task bound to it there,
and a `publish()` block either leaves receipt and stamp together or nothing. -/
namespace Qraft

namespace GraphState
variable {conf : RetryDefaults} {now : Time} {s s' : GraphState} {e : GraphEvent}

/-- The receipts that were committed are those in the rows, one for a node and generation. -/
structure Recorded (s : GraphState) : Prop where
  rows : ∀ r ∈ s.receipts, ∀ n ∈ s.nodes, n.key = r.key → r.generation < n.generation ∨
    r.generation = n.generation ∧ n.task = some r.task ∧ n.receipt = some r.payload ∧
      n.receiptAttemptId = some r.attempt
  held : ∀ n ∈ s.nodes, n.receipt ≠ none →
    ∃ r ∈ s.receipts, r.key = n.key ∧ r.generation = n.generation
  once : (s.receipts.map fun r => (r.key, r.generation)).Nodup
  created : ∀ r ∈ s.receipts, (r.key, r.generation, r.task) ∈ s.creations

theorem Heard.columns {n m : QraftGraphNode} (h : Heard e n m) :
    m.key = n.key ∧ m.generation = n.generation ∧ m.task = n.task ∧ m.receipt = n.receipt ∧
      m.receiptAttemptId = n.receiptAttemptId := by
  rcases h with rfl | ⟨task, outcome, now, -, -, -, -, rfl⟩
  · exact ⟨rfl, rfl, rfl, rfl, rfl⟩
  · exact ⟨rfl, rfl, rfl, rfl, rfl⟩

/-- A call keeps a receipt for as long as the generation lasts. -/
theorem call_rows (hv : s.Valid) {r : GraphState × Option QraftGraph} (h : s.call conf now e = .ok r) :
    ∀ n' ∈ r.1.nodes, ∃ n ∈ s.nodes, n'.key = n.key ∧ n.generation ≤ n'.generation ∧
      (n'.generation = n.generation → n'.receipt = n.receipt ∧
        n'.receiptAttemptId = n.receiptAttemptId ∧ (n.task ≠ none → n'.task = n.task)) ∧
      (n'.generation ≠ n.generation → n'.receipt = none) := by
  obtain ⟨s₀, -, -, -, -, hheard, hmoved⟩ := call_moved hv h
  intro n' hn'
  obtain ⟨m, hm, hc⟩ := hmoved.rows n' hn'
  obtain ⟨n, hn, hh⟩ := hheard m hm
  obtain ⟨hk, hg, ht, hr, ha⟩ := hh.columns
  refine ⟨n, hn, hc.key.trans hk, hg ▸ hc.generation, ?_, ?_⟩
  · intro he
    obtain ⟨hr', ha', ht', -⟩ := hc.same (he.trans hg.symm)
    exact ⟨hr'.trans hr, ha'.trans ha, fun hne => (ht' (ht ▸ hne)).trans ht⟩
  · intro hne
    exact hc.renewed fun he => hne (he.trans hg)

theorem Recorded.call (h : s.Recorded) (hv : s.Valid) {r : GraphState × Option QraftGraph}
    (hr : s.call conf now e = .ok r) : r.1.Recorded := by
  obtain ⟨s₀, -, -, hrec₀, hcre₀, -, hmoved⟩ := call_moved hv hr
  have hrec : r.1.receipts = s.receipts := hmoved.receipts.trans hrec₀
  have hrows := call_rows hv hr
  refine ⟨?_, ?_, ?_, ?_⟩
  · intro x hx n' hn' hk
    obtain ⟨n, hn, hkey, hle, hsame, -⟩ := hrows n' hn'
    rw [hrec] at hx
    rcases h.rows x hx n hn (hkey.symm.trans hk) with hlt | ⟨hg, ht, hp, ha⟩
    · exact .inl (Nat.lt_of_lt_of_le hlt hle)
    · rcases hle.lt_or_eq with hlt | heq
      · exact .inl (hg ▸ hlt)
      · obtain ⟨hp', ha', ht'⟩ := hsame heq.symm
        refine .inr ⟨hg.trans heq, ?_, hp'.trans hp, ha'.trans ha⟩
        have hne : n.task ≠ none := by
          rw [ht]
          exact Option.some_ne_none _
        exact (ht' hne).trans ht
  · intro n' hn' hne
    obtain ⟨n, hn, hkey, -, hsame, hrenewed⟩ := hrows n' hn'
    have hg : n'.generation = n.generation := by
      by_contra hg
      exact hne (hrenewed hg)
    obtain ⟨x, hx, hxk, hxg⟩ := h.held n hn ((hsame hg).1 ▸ hne)
    exact ⟨x, hrec ▸ hx, hxk.trans hkey.symm, hxg.trans hg.symm⟩
  · rw [hrec]
    exact h.once
  · intro x hx
    rw [hrec] at hx
    obtain ⟨new, hnew, -⟩ := hmoved.creations
    rw [hnew, hcre₀]
    exact List.mem_append_left _ (h.created x hx)

/-- An open block has the authority `publish()` checked: its node's row is locked. -/
def Authorized (s : GraphState) (b : Publication) : Prop :=
  ∃ n ∈ s.nodes, n.key = b.key ∧ n.generation = b.generation ∧ n.task = some b.task ∧ n.receipt = none

/-- Publishing under that authority adds the one receipt of its node and generation. -/
theorem Recorded.publish (h : s.Recorded) (hv : s.Valid) (hj : s.Journaled) {b : Publication}
    (hb : s.Authorized b) (payload : JsonDict) : (s.publish b payload).Recorded := by
  obtain ⟨node, hnode, hk, hg, ht, hnone⟩ := hb
  have hreceipts := publish_receipts (s := s) b payload
  have hcre : (s.publish b payload).creations = s.creations := by
    simp [GraphState.publish, updateNodes, creations, JournalEntry.creation?]
  have hsel : ∀ n ∈ s.nodes, (n.key = b.key && n.receipt.isNone) = true ↔ n = node := by
    intro n hn
    simp only [Bool.and_eq_true, decide_eq_true_eq]
    refine ⟨fun hp => hv.nodes.eq_of_key hn hnode (hp.1.trans hk.symm), ?_⟩
    rintro rfl
    exact ⟨hk, by rw [hnone]; rfl⟩
  have hrows : ∀ {n'}, n' ∈ (s.publish b payload).nodes ↔
      (n' ∈ s.nodes ∧ n' ≠ node) ∨ n' = recordReceipt payload b.attempt node :=
    Rows.mem_updateWhere_single hnode hsel
  have hunpublished : ∀ r ∈ s.receipts, r.key = b.key → r.generation < b.generation := by
    intro r hr hkey
    rcases h.rows r hr node hnode (hk.trans hkey.symm) with hlt | ⟨-, -, hp, -⟩
    · exact hg ▸ hlt
    · rw [hnone] at hp
      cases hp
  refine ⟨?_, ?_, ?_, ?_⟩
  · intro r hr n' hn' hkey
    rw [hreceipts] at hr
    rcases hrows.mp hn' with ⟨hn, hne⟩ | rfl
    · rcases List.mem_append.mp hr with hr | hr
      · exact h.rows r hr n' hn hkey
      · obtain rfl := List.mem_singleton.mp hr
        exact absurd (hv.nodes.eq_of_key hn hnode (hkey.trans hk.symm)) hne
    · rcases List.mem_append.mp hr with hr | hr
      · exact .inl (hg ▸ hunpublished r hr (hkey.symm.trans hk))
      · obtain rfl := List.mem_singleton.mp hr
        exact .inr ⟨hg.symm, ht, rfl, rfl⟩
  · intro n' hn' hne
    rw [hreceipts]
    rcases hrows.mp hn' with ⟨hn, -⟩ | rfl
    · obtain ⟨r, hr, hrow⟩ := h.held n' hn hne
      exact ⟨r, List.mem_append_left _ hr, hrow⟩
    · exact ⟨_, List.mem_append_right _ (List.mem_singleton.mpr rfl), hk.symm, hg.symm⟩
  · rw [hreceipts, List.map_append, List.nodup_append]
    refine ⟨h.once, List.nodup_singleton _, ?_⟩
    rintro c hc _ hx rfl
    obtain ⟨r, hr, rfl⟩ := List.mem_map.mp hc
    obtain ⟨hkey, hgen⟩ := Prod.mk.inj (List.mem_singleton.mp hx)
    exact absurd hgen (Nat.ne_of_lt (hunpublished r hr hkey))
  · intro r hr
    rw [hcre]
    rw [hreceipts] at hr
    rcases List.mem_append.mp hr with hr | hr
    · exact h.created r hr
    · obtain rfl := List.mem_singleton.mp hr
      have hbound := hj.bound node hnode b.task ht
      rw [hk, hg] at hbound
      exact hbound

end GraphState

namespace Publishing
open GraphState

section
variable {conf : RetryDefaults} {limit : Nat} {w w' : Publishing} {env : Env}

theorem Sound.distinct (h : w.Sound limit) : w.life.store.Distinct := Lifecycle.reach_distinct h.life

theorem Sound.table {e : LifecycleEvent} {life : Lifecycle} (h : w.Sound limit)
    (hstep : w.life.step limit env e = some life) : ({ w with life } : Publishing).Sound limit :=
  ⟨.step (e := (e, env)) h.life trivial hstep, h.valid, h.journaled,
    Nat.le_trans h.ids (Lifecycle.step_nextId hstep)⟩

theorem Sound.call {e : GraphEvent} {now : Time} (h : w.Sound limit)
    (hcall : w.call conf now e = .ok w') : w'.Sound limit := by
  obtain ⟨r, hr, hgraph, hlife, -, -⟩ := call_ok hcall
  have hv := drawFrom_valid h.valid w.life.store.nextId
  have hj := drawFrom_journaled h.journaled h.ids
  obtain ⟨s₀, -, hstore, -, -, -, hmoved⟩ := call_moved hv hr
  have hgrown := hmoved.store
  rw [hstore] at hgrown
  refine ⟨?_, ?_, ?_, ?_⟩
  · rw [hlife]
    exact Lifecycle.reach_heed (Lifecycle.reach_adopt hgrown h.life rfl) r.1.graph
  · rw [hgraph]
    exact call_valid hv hr
  · rw [hgraph]
    exact call_journaled hv hj hr
  · rw [hlife, hgraph, Lifecycle.heed_store]
    exact Nat.le_refl _

theorem Sound.effect {e : PublishEvent} (h : w.Sound limit) (heff : PublishEffect conf limit w env e w') :
    w'.Sound limit := by
  cases heff with
  | quiet | opened | noted | closed => exact ⟨h.life, h.valid, h.journaled, h.ids⟩
  | table hf hstep => exact h.table hstep
  | called he hb hcall => exact h.call hcall
  | completed hd hb ho hcall =>
    have hdone := h.call hcall
    exact ⟨hdone.life, hdone.valid, hdone.journaled, hdone.ids⟩
  | finished hd ho hh hstep => exact h.table hstep
  | @published b payload life hb hp hstep =>
    have hdone := h.table hstep
    exact ⟨hdone.life, publish_valid h.valid b payload, publish_journaled h.journaled b payload, hdone.ids⟩

theorem started_receipts {plan : GraphPlan} {id : GraphId} {now : Time} {s : GraphState}
    (h : GraphState.start conf plan id now = .ok s) : s.receipts = [] := by
  obtain ⟨s₀, t, hcheck, hins, ht, rfl⟩ := start_ok h
  have hc := hins.consistent hcheck
  have hmoved := (moved_dispatchFrontier hc ht).trans (moved_maybeSettle t now)
  rw [hmoved.receipts, receipts, hins.journal]
  rfl

/-- A graph that starts is all there is to begin with. -/
private theorem started {plan : GraphPlan} {id : GraphId} {now : Time} {s : GraphState}
    (h : GraphState.start conf plan id now = .ok s) :
    (lifecycleSystem limit).Reach { store := s.store } ∧ s.Recorded ∧
      Lifecycle.Stamped s none { store := s.store } := by
  have hnone := started_receipts h
  obtain ⟨s₀, t, hcheck, hins, ht, rfl⟩ := start_ok h
  have hc := hins.consistent hcheck
  have hmoved := (moved_dispatchFrontier hc ht).trans (moved_maybeSettle t now)
  have hgrown := hmoved.store
  rw [hins.store] at hgrown
  have hadopt : ({} : Lifecycle).adopt {} (t.maybeSettle now).1.store =
      { store := (t.maybeSettle now).1.store } := rfl
  have hreach : (lifecycleSystem limit).Reach (({} : Lifecycle).adopt {} (t.maybeSettle now).1.store) :=
    Lifecycle.reach_adopt hgrown (.init rfl) rfl
  rw [hadopt] at hreach
  have hempty : ∀ r, r ∉ (t.maybeSettle now).1.receipts := by
    rw [hnone]
    exact fun r => List.not_mem_nil
  refine ⟨hreach, ⟨?_, ?_, ?_, ?_⟩, ?_⟩
  · exact fun r hr => absurd hr (hempty r)
  · intro n' hn' hne
    obtain ⟨n, hn, hcarried⟩ := hmoved.rows n' hn'
    rw [hins.nodes] at hn
    obtain ⟨i, hi, rfl⟩ := List.mem_mapIdx.mp hn
    by_cases hg : n'.generation = 1
    · exact absurd (hcarried.same hg).1 hne
    · exact absurd (hcarried.renewed hg) hne
  · rw [hnone]
    exact List.nodup_nil
  · exact fun r hr => absurd hr (hempty r)
  · have hstamped : Lifecycle.Stamped (t.maybeSettle now).1 none {} := by
      refine ⟨fun r hr => absurd hr (hempty r), fun _ hb => (by cases hb), ?_⟩
      exact fun t ht => absurd ht List.not_mem_nil
    have hstart : (lifecycleSystem limit).Reach {} := .init rfl
    have hd := Lifecycle.reach_distinct hstart
    have hadopted := hstamped.adopt hd hgrown rfl
    rw [hadopt] at hadopted
    exact hadopted

/-- The fence between runs of `publish()`. -/
structure Fenced (w : Publishing) : Prop where
  recorded : w.graph.Recorded
  block : ∀ b, w.block = some b → w.graph.Authorized b
  stamped : Lifecycle.Stamped w.graph w.block w.life

namespace Fenced

private theorem table {e : LifecycleEvent} {life : Lifecycle} (h : w.Fenced) (hs : w.Sound limit)
    (hstep : w.life.step limit env e = some life)
    (hf : ∀ task attempt, e = .commitOutput task attempt → ∀ t, w.life.store.task? task = some t →
      w.graph.owns t = false) : ({ w with life } : Publishing).Fenced :=
  ⟨h.recorded, h.block, h.stamped.step hs.distinct hstep hf⟩

private theorem call {e : GraphEvent} {now : Time} (h : w.Fenced) (hs : w.Sound limit)
    (hb : w.block = none) (hcall : w.call conf now e = .ok w') : w'.Fenced := by
  obtain ⟨r, hr, hgraph, hlife, hblock, -⟩ := call_ok hcall
  have hv := drawFrom_valid hs.valid w.life.store.nextId
  obtain ⟨s₀, hg₀, hstore, hrec₀, -, -, hmoved⟩ := call_moved hv hr
  have hgrown := hmoved.store
  rw [hstore] at hgrown
  have hrecorded : (w.graph.drawFrom w.life.store.nextId).Recorded :=
    ⟨h.recorded.rows, h.recorded.held, h.recorded.once, h.recorded.created⟩
  have hid : r.1.graph.id = w.graph.graph.id := hmoved.id.trans (congrArg QraftGraph.id hg₀)
  have hreceipts : r.1.receipts = w.graph.receipts := hmoved.receipts.trans hrec₀
  refine ⟨?_, ?_, ?_⟩
  · rw [hgraph]
    exact hrecorded.call hv hr
  · intro b hb'
    rw [hblock, hb] at hb'
    cases hb'
  · rw [hgraph, hblock, hlife]
    have hadopted := h.stamped.adopt hs.distinct hgrown rfl
    exact (hadopted.heed r.1.graph).congr hid hreceipts

theorem effect {e : PublishEvent} (h : w.Fenced) (hs : w.Sound limit)
    (heff : PublishEffect conf limit w env e w') : w'.Fenced := by
  cases heff with
  | quiet he => exact h
  | @table e life hf hstep =>
    apply h.table hs hstep
    rintro task attempt rfl t ht
    simp only [foreign, ht, Option.all_some, Bool.not_eq_true'] at hf
    exact hf
  | called he hb hcall => exact h.call hs hb hcall
  | completed hd hb ho hcall =>
    have hdone := h.call hs hb hcall
    exact ⟨hdone.recorded, hdone.block, hdone.stamped⟩
  | finished hd ho hh hstep => exact h.table hs hstep fun _ _ he => by cases he
  | @opened t a n ht ho ha hn hb hbound hr =>
    refine ⟨h.recorded, ?_, ?_⟩
    · intro b hb'
      obtain rfl := Option.some.inj hb'
      exact ⟨n, hn, rfl, rfl, hbound, hr⟩
    · refine ⟨h.stamped.published, ?_, h.stamped.stamps⟩
      intro b hb'
      obtain rfl := Option.some.inj hb'
      exact ⟨t, ht, ho, a, ha, rfl⟩
  | @noted _ b hb p =>
    refine ⟨h.recorded, ?_, ?_⟩
    · intro b' hb'
      obtain rfl := Option.some.inj hb'
      exact h.block b hb
    · refine ⟨h.stamped.published, ?_, h.stamped.stamps⟩
      intro b' hb'
      obtain rfl := Option.some.inj hb'
      exact h.stamped.block b hb
  | closed he =>
    exact ⟨h.recorded, fun _ hb => (by cases hb), h.stamped.published, fun _ hb => (by cases hb),
      h.stamped.stamps⟩
  | @published b payload life hb hp hstep =>
    have hstamped := h.stamped
    rw [hb] at hstamped
    refine ⟨h.recorded.publish hs.valid hs.journaled (h.block b hb) payload, fun _ hb => (by cases hb), ?_⟩
    exact hstamped.publish hs.distinct hstep payload

end Fenced

theorem reach_sound (h : (publishingSystem conf limit).Reach w) : w.Sound limit := by
  apply h.invariant (fun w => w.Sound limit)
  · rintro w ⟨plan, id, now, graph, hstart, rfl⟩
    exact ⟨(started hstart).1, start_valid hstart, start_journaled hstart, Nat.le_refl _⟩
  · intro w e w' hs _ hstep
    exact hs.effect (step_effect hstep)

theorem reach_fenced (h : (publishingSystem conf limit).Reach w) : w.Fenced := by
  apply h.invariant_of (fun w => w.Sound limit) Fenced
  · exact fun w hw => reach_sound hw
  · rintro w ⟨plan, id, now, graph, hstart, rfl⟩
    obtain ⟨-, hrecorded, hstamped⟩ : (lifecycleSystem limit).Reach _ ∧ _ := started hstart
    exact ⟨hrecorded, fun _ hb => (by cases hb), hstamped⟩
  · intro w e w' hs hf _ hstep
    exact hf.effect hs (step_effect hstep)

/-- A step of a block that commits no receipt: it is entered or refused, calls `succeed()`, raises,
or returns without having called it. -/
def uncommitted (w : Publishing) : PublishEvent → Bool
  | .openBlock _ _ => true
  | .succeed _ => true
  | .abort => true
  | .leave => w.block.all fun b => b.payload.isNone
  | _ => false

theorem uncommitted_keeps {e : PublishEvent} (heff : PublishEffect conf limit w env e w')
    (hu : w.uncommitted e = true) : w'.graph = w.graph ∧ w'.life = w.life := by
  cases heff with
  | quiet | opened | noted | closed => exact ⟨rfl, rfl⟩
  | table | called | completed | finished => cases hu
  | published hb hp =>
    rw [uncommitted, hb, Option.all_some, hp] at hu
    cases hu

/-- Receipts are written by a block whose body called `succeed()`, when it returns. -/
theorem step_receipts (hs : w.Sound limit) (hf : w.Fenced) {e : PublishEvent}
    (heff : PublishEffect conf limit w env e w') : w'.graph.receipts = w.graph.receipts ∨
    e = .leave ∧ ∃ b payload, w.block = some b ∧ b.payload = some payload ∧ w.graph.Authorized b ∧
      w'.graph.receipts = w.graph.receipts ++ [{
        key := b.key, generation := b.generation, task := b.task, attempt := b.attempt, payload }] := by
  have call {e : GraphEvent} {now : Time} {w' : Publishing} (h : w.call conf now e = .ok w') :
      w'.graph.receipts = w.graph.receipts := by
    obtain ⟨r, hr, hgraph, -⟩ := call_ok h
    obtain ⟨s₀, -, -, hrec₀, -, -, hmoved⟩ := call_moved (drawFrom_valid hs.valid _) hr
    rw [hgraph]
    exact hmoved.receipts.trans hrec₀
  cases heff with
  | quiet | table | finished | opened | noted | closed => exact .inl rfl
  | called he hb h => exact .inl (call h)
  | completed hd hb ho h =>
    have hkept := call h
    exact .inl hkept
  | @published b payload life hb hp hstep =>
    exact .inr ⟨rfl, b, payload, hb, hp, hf.block b hb, publish_receipts b payload⟩

/-- Receipts are fenced. -/
theorem receipts_fenced (h : (publishingSystem conf limit).Reach w) :
    (w.graph.receipts.map fun r => (r.key, r.generation)).Nodup ∧
    (∀ n ∈ w.graph.nodes, ∀ payload, n.receipt = some payload ↔ ∃ r ∈ w.graph.receipts,
      r.key = n.key ∧ r.generation = n.generation ∧ r.payload = payload) ∧
    (∀ r ∈ w.graph.receipts, (r.key, r.generation, r.task) ∈ w.graph.creations ∧
      Lifecycle.Held w.graph w.life r.task r.attempt ∧
      ∀ n ∈ w.graph.nodes, n.key = r.key → n.generation = r.generation →
        n.task = some r.task ∧ n.receiptAttemptId = some r.attempt) ∧
    (∀ t ∈ w.life.store.tasks, w.graph.owns t = true → ∀ a ∈ t.attempts,
      a.outputCommittedAt ≠ none ↔ ∃ r ∈ w.graph.receipts, r.task = t.id ∧ r.attempt = a.id) ∧
    ∀ e env w', w.step conf limit env e = some w' →
      (w'.graph.receipts = w.graph.receipts ∨
        e = .leave ∧ ∃ b payload, w.block = some b ∧ b.payload = some payload ∧
          (∃ n ∈ w.graph.nodes, n.key = b.key ∧ n.generation = b.generation ∧
            n.task = some b.task ∧ n.receipt = none) ∧
          w'.graph.receipts = w.graph.receipts ++ [{
            key := b.key, generation := b.generation, task := b.task, attempt := b.attempt, payload }]) ∧
      (w.uncommitted e = true → w'.graph = w.graph ∧ w'.life = w.life) := by
  have hs := reach_sound h
  have hf := reach_fenced h
  have unique {r : Receipt} {n : QraftGraphNode} (hr : r ∈ w.graph.receipts) (hn : n ∈ w.graph.nodes)
      (hk : n.key = r.key) (hg : n.generation = r.generation) :
      n.task = some r.task ∧ n.receipt = some r.payload ∧ n.receiptAttemptId = some r.attempt := by
    rcases hf.recorded.rows r hr n hn hk with hlt | ⟨-, hrow⟩
    · exact absurd hg (Nat.ne_of_gt hlt)
    · exact hrow
  refine ⟨hf.recorded.once, ?_, ?_, ?_, ?_⟩
  · intro n hn payload
    constructor
    · intro hp
      obtain ⟨r, hr, hk, hg⟩ := hf.recorded.held n hn (by rw [hp]; exact Option.some_ne_none _)
      obtain ⟨-, hrow, -⟩ := unique hr hn hk.symm hg.symm
      exact ⟨r, hr, hk, hg, Option.some.inj (hrow.symm.trans hp)⟩
    · rintro ⟨r, hr, hk, hg, rfl⟩
      exact (unique hr hn hk.symm hg.symm).2.1
  · intro r hr
    refine ⟨hf.recorded.created r hr, hf.stamped.published r hr, ?_⟩
    intro n hn hk hg
    obtain ⟨ht, -, ha⟩ := unique hr hn hk hg
    exact ⟨ht, ha⟩
  · intro t ht ho a ha
    rw [hf.stamped.stamps t ht ho a ha]
    constructor
    · rintro ⟨r, hr, hid⟩
      refine ⟨r, hr, ?_, hid⟩
      -- The attempt of a receipt is a row of its task, and of no other.
      obtain ⟨u, hu, -, b, hb, hbid⟩ := hf.stamped.published r hr
      obtain ⟨hmem, hrow⟩ := TaskStore.task?_eq_some hu
      have hsame := hs.distinct.owner u hmem b hb t ht a ha (hbid.trans hid)
      rw [← hrow, hsame]
    · rintro ⟨r, hr, -, hid⟩
      exact ⟨r, hr, hid⟩
  · intro e env w' hstep
    have heff := step_effect hstep
    exact ⟨step_receipts hs hf heff, uncommitted_keeps heff⟩

end

def replay (conf : RetryDefaults) (limit : Nat) (plan : GraphPlan) (events : List (PublishEvent × Env)) :
    Option Publishing :=
  (GraphState.start conf plan 0 0).toOption.bind fun graph =>
    (publishingSystem conf limit).run { life := { store := graph.store }, graph } events

theorem exists_reach_of_replay (conf : RetryDefaults) (limit : Nat) (plan : GraphPlan)
    (events : List (PublishEvent × Env)) (p : Publishing → Bool)
    (h : (replay conf limit plan events).map p = some true) :
    ∃ w, (publishingSystem conf limit).Reach w ∧ p w = true := by
  obtain ⟨w, hw, hp⟩ := Option.map_eq_some_iff.mp h
  obtain ⟨graph, hstart, hrun⟩ := Option.bind_eq_some_iff.mp hw
  have hinit : (publishingSystem conf limit).Reach { life := { store := graph.store }, graph } :=
    .init ⟨plan, 0, 0, graph, Transaction.toOption_eq_some.mp hstart, rfl⟩
  exact ⟨w, StepSystem.reach_of_run hinit hrun, hp⟩

/-- A run whose steps all meet a condition. -/
theorem exists_reachWhen_of_replay (conf : RetryDefaults) (limit : Nat) (plan : GraphPlan)
    (P : Publishing → PublishEvent × Env → Prop) [∀ w e, Decidable (P w e)]
    (events : List (PublishEvent × Env)) (p : Publishing → Bool)
    (h : (((GraphState.start conf plan 0 0).toOption.bind fun graph =>
      ((publishingSystem conf limit).guard P).run { life := { store := graph.store }, graph } events).map p) =
        some true) : ∃ w, (publishingSystem conf limit).ReachWhen P w ∧ p w = true := by
  obtain ⟨w, hw, hp⟩ := Option.map_eq_some_iff.mp h
  obtain ⟨graph, hstart, hrun⟩ := Option.bind_eq_some_iff.mp hw
  have hinit : ((publishingSystem conf limit).guard P).Reach { life := { store := graph.store }, graph } :=
    .init ⟨plan, 0, 0, graph, Transaction.toOption_eq_some.mp hstart, rfl⟩
  exact ⟨w, StepSystem.reachWhen_of_guard (StepSystem.reach_of_run hinit hrun), hp⟩

/-- A node without dependencies, to be run once. -/
def loadPlan : GraphPlan where
  nodes := [{ key := "load", func := "app.load", recovery := .transactional }]

/-- Its task is claimed, and the attempt publishes. -/
def publication : List (PublishEvent × Env) := [
  (.table (.claimAndEnqueue 0 1 0), { now := 1 }), (.openBlock 0 1, { now := 2 }),
  (.succeed none, { now := 2 }), (.leave, { now := 3 })]

theorem receipts_fenced_load : ∃ w, (publishingSystem {} 3).Reach w ∧ w.graph.receipts ≠ [] ∧
    (w.graph.receipts.map fun r => (r.key, r.generation)).Nodup := by
  obtain ⟨w, hw, hp⟩ := exists_reach_of_replay {} 3 loadPlan publication
    (fun w => w.graph.receipts.length = 1) (by decide)
  simp only [decide_eq_true_eq] at hp
  refine ⟨w, hw, ?_, (receipts_fenced hw).1⟩
  intro hnil
  rw [hnil] at hp
  cases hp

end Publishing
end Qraft
