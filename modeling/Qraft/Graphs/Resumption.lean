import Mathlib.Logic.Relation
import Qraft.Graphs.Generations

/-! What a resume puts back, and what it leaves as it was. -/
namespace Qraft
open NodeTable

structure ResumePreview where
  rerun : List String
  kept : List String

namespace NodeTable

def DependsOn (nodes : NodeTable) (a b : String) : Prop := ∃ n ∈ nodes, n.key = a ∧ b ∈ n.after

def Below (nodes : NodeTable) (names : List String) (key : String) : Prop :=
  ∃ k ∈ names, Relation.ReflTransGen nodes.DependsOn key k

section
variable {nodes : NodeTable} {id : GraphId} {names : Option (List String)} {rerun : List String}

private theorem reaches_iff {k key : String} :
    Relation.ReflTransGen (fun a b => b ∈ nodes.dependents a) k key ↔
      Relation.ReflTransGen nodes.DependsOn key k := by
  rw [← Relation.reflTransGen_swap]
  have hflip : (Function.swap fun a b => b ∈ nodes.dependents a) = nodes.DependsOn := by
    funext a b
    exact propext mem_dependents
  rw [hflip]

/-- A resume reruns what is at or below a named node and not pending. -/
theorem mem_rerunClosure (hn : (nodes.map fun n => n.key).Nodup)
    (h : nodes.rerunClosure id names = .ok rerun) {n : QraftGraphNode} (hmem : n ∈ nodes) :
    n.key ∈ rerun ↔ nodes.Below (nodes.resumeStart names) n.key ∧ n.status ≠ .pending := by
  obtain ⟨start, hkeys, hsame, rfl⟩ := rerunClosure_ok h
  rw [mem_rerunFrom hn hkeys]
  refine and_congr ?_ ?_
  · constructor
    · rintro ⟨k, hk, hpath⟩
      exact ⟨k, (hsame k).mp hk, reaches_iff.mp hpath⟩
    · rintro ⟨k, hk, hpath⟩
      exact ⟨k, (hsame k).mpr hk, reaches_iff.mpr hpath⟩
  · constructor
    · rintro ⟨m, hm, hk, hs⟩
      rwa [Rows.eq_of_key_eq hn hmem hm hk.symm]
    · exact fun hs => ⟨n, hmem, rfl, hs⟩

theorem rerun_keys (hn : (nodes.map fun n => n.key).Nodup) (h : nodes.rerunClosure id names = .ok rerun)
    {key : String} (hkey : key ∈ rerun) : key ∈ nodes.map fun n => n.key := by
  obtain ⟨start, hkeys, -, rfl⟩ := rerunClosure_ok h
  obtain ⟨-, n, hn, rfl, -⟩ := (mem_rerunFrom hn hkeys).mp hkey
  exact List.mem_map_of_mem hn

end
end NodeTable

namespace GraphState

def resumePreview (s : GraphState) (names : Option (List String)) : Except QraftError ResumePreview := do
  let rerun ← s.nodes.rerunClosure s.graph.id names
  return {
    rerun := rerun.insertionSort (· ≤ ·)
    kept := (s.nodes.ordered.filter fun n => n.key ∉ rerun).map fun n => n.key }

section
variable {conf : RetryDefaults} {s : GraphState} {names : Option (List String)} {now : Time}
  {r : GraphState × Nat}

/-- A row put back, and then perhaps taken up again by the frontier. -/
def Restarted (now : Time) (n n' : QraftGraphNode) : Prop :=
  ∃ m : QraftGraphNode, m.status = .pending ∧ m.generation = n.generation + 1 ∧ m.task = none ∧
    m.receipt = none ∧ m.receiptAttemptId = none ∧ TakenUp now m n'

private theorem TakenUp.columns {n n' : QraftGraphNode} (h : TakenUp now n n') :
    n'.key = n.key ∧ n'.after = n.after ∧ n'.generation = n.generation := by
  rcases h with rfl | ⟨-, rfl | ⟨id, rfl⟩⟩
  · exact ⟨rfl, rfl, rfl⟩
  · exact ⟨rfl, rfl, rfl⟩
  · exact ⟨rfl, rfl, rfl⟩

/-- What the frontier makes of a pending row never meets a dependency. -/
private theorem TakenUp.unmet {n n' : QraftGraphNode} (h : TakenUp now n n')
    (hs : n.status = .pending) : ¬ n'.status.Met := by
  rcases h with rfl | ⟨-, rfl | ⟨id, rfl⟩⟩
  · simp [hs, NodeStatus.Met]
  · simp [park, NodeStatus.Met]
  · simp [bindTask, NodeStatus.Met]

/-- The rows of a resumed graph: those of the rerun set start over, the others are as they were
but for the frontier. -/
structure Resumed (now : Time) (nodes nodes' : NodeTable) (rerun : List String) : Prop where
  consistent : Consistent nodes'
  keys : (nodes'.map fun n => n.key) = nodes.map fun n => n.key
  rows : ∀ n' ∈ nodes', ∃ n ∈ nodes,
    TakenUp now (if n.key ∈ rerun then resetNode n else n) n'

theorem resume_rows (hv : s.Valid) (hr : s.resume conf names now = .ok r) :
    ∃ rerun, s.nodes.rerunClosure s.graph.id names = .ok rerun ∧ r.2 = rerun.length ∧
      Resumed now s.nodes r.1.nodes rerun := by
  obtain ⟨rerun, t, -, hrerun, -, ht, rfl⟩ := resume_ok hr
  have hc := hv.consistent_rewind hrerun now
  refine ⟨rerun, hrerun, rfl, ?_, ?_, ?_⟩
  · rw [maybeSettle_nodes]
    exact (dispatchFrontier_ok hc ht).2.2.1
  · rw [maybeSettle_nodes]
    apply dispatchFrontier_invariant (fun t => (t.nodes.map fun n => n.key) = s.nodes.map fun n => n.key)
      _ hc _ ht
    · intro t node t' _ _ hkeys hturn
      obtain ⟨-, -, f, hf, hnodes⟩ := dispatchOrPark_ok hturn
      rw [hnodes, takeUp, Rows.map_updateWhere _ fun n _ _ => (hf.columns n).1, hkeys]
    · simp only [rewind, recordSettlement_nodes]
      exact Rows.map_updateWhere _ fun n _ _ => rfl
  · intro n' hn'
    rw [maybeSettle_nodes] at hn'
    obtain ⟨m, hm, hup⟩ := dispatchFrontier_rows hc ht n' hn'
    simp only [rewind, recordSettlement_nodes] at hm
    obtain ⟨n, hn, rfl⟩ := Rows.mem_updateWhere.mp hm
    refine ⟨n, hn, ?_⟩
    simpa only [decide_eq_true_eq] using hup

namespace Resumed
variable {nodes nodes' : NodeTable} {rerun : List String}

theorem row_key {n n' : QraftGraphNode}
    (h : TakenUp now (if n.key ∈ rerun then resetNode n else n) n') :
    n'.key = n.key ∧ n'.after = n.after := by
  obtain ⟨hk, ha, -⟩ := h.columns
  rw [hk, ha]
  split
  · exact ⟨rfl, rfl⟩
  · exact ⟨rfl, rfl⟩

theorem dependsOn (h : Resumed now nodes nodes' rerun) {a b : String} (hd : nodes'.DependsOn a b) :
    nodes.DependsOn a b := by
  obtain ⟨n', hn', rfl, hb⟩ := hd
  obtain ⟨n, hn, hup⟩ := h.rows n' hn'
  obtain ⟨hk, ha⟩ := row_key hup
  exact ⟨n, hn, hk.symm, ha ▸ hb⟩

variable {id : GraphId}

/-- A node below one that is put back is put back itself, or was pending and stays so. -/
theorem below_pending (h : Resumed now nodes nodes' rerun) (hc : Consistent nodes)
    (hrerun : nodes.rerunClosure id names = .ok rerun) {key : String} (hkey : key ∈ rerun)
    {n' : QraftGraphNode} (hn' : n' ∈ nodes')
    (hbelow : Relation.ReflTransGen nodes'.DependsOn n'.key key) :
    ∃ n ∈ nodes, n.key = n'.key ∧ (n.key ∈ rerun ∨ n.status = .pending) ∧ ¬ n'.status.Met := by
  obtain ⟨n, hn, hup⟩ := h.rows n' hn'
  have hk := (row_key hup).1
  have hpath : Relation.ReflTransGen nodes.DependsOn n.key key := by
    rw [← hk]
    exact Relation.ReflTransGen.mono (fun _ _ hd => h.dependsOn hd) _ _ hbelow
  have hmember : n.key ∈ rerun ∨ n.status = .pending := by
    by_cases hs : n.status = .pending
    · exact .inr hs
    · refine .inl ((mem_rerunClosure hc.nodup hrerun hn).mpr ⟨?_, hs⟩)
      obtain ⟨m, hm, hmk⟩ := List.mem_map.mp (rerun_keys hc.nodup hrerun hkey)
      subst hmk
      obtain ⟨⟨k, hstart, hto⟩, -⟩ := (mem_rerunClosure hc.nodup hrerun hm).mp hkey
      exact ⟨k, hstart, hpath.trans hto⟩
  refine ⟨n, hn, hk.symm, hmember, hup.unmet ?_⟩
  split
  · rfl
  · rename_i hout
    exact hmember.resolve_left hout

/-- No node that was kept and has run, or waits at its gate, is below one that is put back. -/
theorem kept_above (h : Resumed now nodes nodes' rerun) (hc : Consistent nodes)
    (hrerun : nodes.rerunClosure id names = .ok rerun) {n' : QraftGraphNode} (hn' : n' ∈ nodes')
    (hkept : n'.key ∉ rerun) (hran : n'.task ≠ none ∨ n'.status = .waitingApproval) {key : String}
    (hkey : key ∈ rerun) : ¬ Relation.TransGen nodes'.DependsOn n'.key key := by
  intro hbelow
  obtain ⟨n, hn, hk, hmember, -⟩ := h.below_pending hc hrerun hkey hn' hbelow.to_reflTransGen
  have hpending : n.status = .pending := hmember.resolve_left (hk ▸ hkept)
  -- Only the frontier can have taken it up, which waits for every dependency.
  have hstarted : n'.status.Started := by
    rcases hran with hb | hs
    · rcases (h.consistent.rows n' hn').bound.mp hb with hs | hs | hs <;> simp [hs, NodeStatus.Started]
    · simp [hs, NodeStatus.Started]
  obtain ⟨d, hd, hrest⟩ := Relation.TransGen.head'_iff.mp hbelow
  obtain ⟨m, hm, hmk, hdm⟩ := hd
  obtain rfl : m = n' := h.consistent.eq_of_key hm hn' hmk
  obtain ⟨e, he, rfl, hmet⟩ := depMet_iff.mp (h.consistent.deps m hm hstarted d hdm)
  obtain ⟨-, -, -, -, hunmet⟩ := h.below_pending hc hrerun hkey he hrest
  exact hunmet hmet

end Resumed

/-- A resume puts back exactly what its preview announces: named nodes and nodes below them, never
one above them; nothing that is kept has run on what is put back. -/
theorem resume_reruns_exactly (h : (graphSystem conf).Reach s) (hr : s.resume conf names now = .ok r) :
    ∃ p, s.resumePreview names = .ok p ∧ r.2 = p.rerun.length ∧
      (∀ key, key ∈ p.kept ↔ key ∈ (s.nodes.map fun n => n.key) ∧ key ∉ p.rerun) ∧
      (∀ key ∈ p.rerun, key ∈ s.nodes.resumeStart names ∨
        ∃ k ∈ s.nodes.resumeStart names, Relation.TransGen s.nodes.DependsOn key k) ∧
      ((r.1.nodes.map fun n => n.key) = s.nodes.map fun n => n.key) ∧
      (∀ n' ∈ r.1.nodes, ∃ n ∈ s.nodes, n.key = n'.key ∧
        (n.key ∈ p.rerun → Restarted now n n') ∧ (n.key ∈ p.kept → TakenUp now n n')) ∧
      ∀ n' ∈ r.1.nodes, n'.key ∈ p.kept → n'.task ≠ none ∨ n'.status = .waitingApproval →
        ∀ key ∈ p.rerun, ¬ Relation.TransGen r.1.nodes.DependsOn n'.key key := by
  have hv := reach_valid h
  obtain ⟨rerun, hrerun, hcount, hrows⟩ := resume_rows hv hr
  have hpreview : s.resumePreview names = .ok {
      rerun := rerun.insertionSort (· ≤ ·)
      kept := (s.nodes.ordered.filter fun n => n.key ∉ rerun).map fun n => n.key } := by
    unfold resumePreview
    rw [hrerun]
    rfl
  have hmem : ∀ key, key ∈ rerun.insertionSort (· ≤ ·) ↔ key ∈ rerun := fun key => List.mem_insertionSort _
  have hkept : ∀ key, key ∈ ((s.nodes.ordered.filter fun n => n.key ∉ rerun).map fun n => n.key) ↔
      key ∈ (s.nodes.map fun n => n.key) ∧ key ∉ rerun := by
    intro key
    simp only [List.mem_map, List.mem_filter, ordered, List.mem_insertionSort, decide_eq_true_eq]
    constructor
    · rintro ⟨n, ⟨hn, hout⟩, rfl⟩
      exact ⟨⟨n, hn, rfl⟩, hout⟩
    · rintro ⟨⟨n, hn, rfl⟩, hout⟩
      exact ⟨n, ⟨hn, hout⟩, rfl⟩
  refine ⟨_, hpreview, ?_, ?_, ?_, hrows.keys, ?_, ?_⟩
  · rw [hcount, List.length_insertionSort]
  · intro key
    rw [hkept, hmem]
  · intro key hkey
    rw [hmem] at hkey
    obtain ⟨n, hn, rfl⟩ := List.mem_map.mp (rerun_keys hv.nodes.nodup hrerun hkey)
    obtain ⟨⟨k, hk, hpath⟩, -⟩ := (mem_rerunClosure hv.nodes.nodup hrerun hn).mp hkey
    rcases Relation.reflTransGen_iff_eq_or_transGen.mp hpath with rfl | hpath
    · exact .inl hk
    · exact .inr ⟨k, hk, hpath⟩
  · intro n' hn'
    obtain ⟨n, hn, hup⟩ := hrows.rows n' hn'
    refine ⟨n, hn, (Resumed.row_key hup).1.symm, ?_, ?_⟩
    · intro hin
      rw [if_pos ((hmem _).mp hin)] at hup
      exact ⟨resetNode n, rfl, rfl, rfl, rfl, rfl, hup⟩
    · intro hin
      rwa [if_neg ((hkept _).mp hin).2] at hup
  · intro n' hn' hin hran key hkey
    exact hrows.kept_above hv.nodes hrerun hn' ((hkept _).mp hin).2 hran ((hmem _).mp hkey)

end

/-- A branch failed while its sibling waits at the gate, and the root is to run again. -/
theorem resume_reruns_exactly_diamond : ∃ s r, (graphSystem {}).Reach s ∧
    s.resume {} (some ["root"]) 4 = .ok r ∧
    ∃ p, s.resumePreview (some ["root"]) = .ok p ∧ r.2 = p.rerun.length ∧
      ∀ n' ∈ r.1.nodes, ∃ n ∈ s.nodes, n.key = n'.key ∧ (n.key ∈ p.rerun → Restarted 4 n n') := by
  obtain ⟨s, hr, hs⟩ := exists_reach_of_replay {} diamond
    [(report 0 "root" .succeeded, 1), (report 2 "plain" .failed, 2)]
    (fun s => (s.resume {} (some ["root"]) 4).toOption.isSome) (by decide)
  obtain ⟨r, hresume⟩ := Option.isSome_iff_exists.mp hs
  have hok := Transaction.toOption_eq_some.mp hresume
  obtain ⟨p, hp, hcount, -, -, -, hrows, -⟩ := resume_reruns_exactly hr hok
  refine ⟨s, r, hr, hok, p, hp, hcount, ?_⟩
  intro n' hn'
  obtain ⟨n, hn, hk, hre, -⟩ := hrows n' hn'
  exact ⟨n, hn, hk, hre⟩

section
variable {conf : RetryDefaults} {s : GraphState} {names : Option (List String)} {now : Time}
  {r : GraphState × Nat}

/-- Whether a node was dispatched in any of its generations. -/
def EverRan (s : GraphState) (n : QraftGraphNode) : Prop := ∃ g t, (n.key, g, t) ∈ s.creations

/-- A resume leaves skipped nodes skipped: it puts back what is named, and what ran below it. -/
structure KeepsSkips (nodes nodes' : NodeTable) (start : List String) (ran : QraftGraphNode → Prop) :
    Prop where
  skipped : ∀ n ∈ nodes, n.status = .skipped → ¬ ran n → n.key ∉ start →
    ∃ n' ∈ nodes', n'.key = n.key ∧ n'.status = .skipped
  putBack : ∀ n ∈ nodes, ∀ n' ∈ nodes', n'.key = n.key → n'.generation ≠ n.generation →
    n.key ∈ start ∨ nodes.Below start n.key ∧ ran n

/-- Whatever counts as having run, skips are kept if and only if all that is below the named
nodes is pending or ran. -/
private theorem keepsSkips_iff (hv : s.Valid) (hr : s.resume conf names now = .ok r)
    (ran : QraftGraphNode → Prop) :
    KeepsSkips s.nodes r.1.nodes (s.nodes.resumeStart names) ran ↔
      ∀ n ∈ s.nodes, s.nodes.Below (s.nodes.resumeStart names) n.key →
        n.key ∉ s.nodes.resumeStart names → n.status ≠ .pending → ran n := by
  obtain ⟨rerun, hrerun, -, hrows⟩ := resume_rows hv hr
  have hmem {n : QraftGraphNode} (hn : n ∈ s.nodes) := mem_rerunClosure hv.nodes.nodup hrerun hn
  have hrow : ∀ n ∈ s.nodes, ∃ n' ∈ r.1.nodes, n'.key = n.key ∧
      TakenUp now (if n.key ∈ rerun then resetNode n else n) n' := by
    intro n hn
    have hkey : n.key ∈ r.1.nodes.map fun n => n.key := hrows.keys ▸ List.mem_map_of_mem hn
    obtain ⟨n', hn', hk⟩ := List.mem_map.mp hkey
    obtain ⟨m, hm, hup⟩ := hrows.rows n' hn'
    obtain rfl : m = n := hv.nodes.eq_of_key hm hn ((Resumed.row_key hup).1.symm.trans hk)
    exact ⟨n', hn', hk, hup⟩
  constructor
  · intro hkeeps n hn hbelow hname hs
    obtain ⟨n', hn', hk, hup⟩ := hrow n hn
    rw [if_pos ((hmem hn).mpr ⟨hbelow, hs⟩)] at hup
    have hgen : n'.generation ≠ n.generation := by
      rw [hup.columns.2.2]
      exact Nat.succ_ne_self _
    rcases hkeeps.putBack n hn n' hn' hk hgen with hin | ⟨-, hran⟩
    · exact absurd hin hname
    · exact hran
  · intro hran
    refine ⟨?_, ?_⟩
    · intro n hn hs hnot hname
      obtain ⟨n', hn', hk, hup⟩ := hrow n hn
      have hout : n.key ∉ rerun := by
        intro hin
        obtain ⟨hbelow, hne⟩ := (hmem hn).mp hin
        exact hnot (hran n hn hbelow hname hne)
      rw [if_neg hout] at hup
      rcases hup with rfl | ⟨hp, -⟩
      · exact ⟨_, hn', hk, hs⟩
      · cases hs.symm.trans hp
    · intro n hn n' hn' hk hgen
      obtain ⟨m, hm, hup⟩ := hrows.rows n' hn'
      obtain rfl : m = n := hv.nodes.eq_of_key hm hn ((Resumed.row_key hup).1.symm.trans hk)
      by_cases hin : m.key ∈ rerun
      · obtain ⟨hbelow, hs⟩ := (hmem hm).mp hin
        by_cases hname : m.key ∈ s.nodes.resumeStart names
        · exact .inl hname
        · exact .inr ⟨hbelow, hran m hm hbelow hname hs⟩
      · rw [if_neg hin] at hup
        exact absurd hup.columns.2.2 hgen

/-- Exactly when a resume keeps the skip decisions, for nodes that ran in their present generation
and for nodes that ran in any. -/
theorem skips_kept (h : (graphSystem conf).Reach s) (hr : s.resume conf names now = .ok r) :
    (KeepsSkips s.nodes r.1.nodes (s.nodes.resumeStart names) (fun n => n.dispatchedAt ≠ none) ↔
      ∀ n ∈ s.nodes, s.nodes.Below (s.nodes.resumeStart names) n.key →
        n.key ∉ s.nodes.resumeStart names → n.status ≠ .pending → n.dispatchedAt ≠ none) ∧
    (KeepsSkips s.nodes r.1.nodes (s.nodes.resumeStart names) s.EverRan ↔
      ∀ n ∈ s.nodes, s.nodes.Below (s.nodes.resumeStart names) n.key →
        n.key ∉ s.nodes.resumeStart names → n.status ≠ .pending → s.EverRan n) :=
  ⟨keepsSkips_iff (reach_valid h) hr _, keepsSkips_iff (reach_valid h) hr _⟩

end

/-- A node is skipped while the root it waits for still runs, and then the root fails. -/
def skippedBelow : List (GraphEvent × Time) := [(.skip "plain" none, 1), (report 0 "root" .failed, 2)]

/-- Whether resuming the failed nodes puts back a skipped node that never ran. -/
def undoesSkip (s : GraphState) : Bool :=
  (s.resume {} none 3).toOption.any fun r => s.nodes.any fun n =>
    n.status = .skipped && n.dispatchedAt = none && s.creations.all (fun c => c.1 ≠ n.key) &&
      r.1.nodes.all fun n' => n'.key = n.key → n'.status = .pending

private theorem undoesSkip_spec {s : GraphState} (h : undoesSkip s = true) :
    ∃ r, s.resume {} none 3 = .ok r ∧ ∃ n ∈ s.nodes, n.status = .skipped ∧ n.dispatchedAt = none ∧
      ¬ s.EverRan n ∧ ∀ n' ∈ r.1.nodes, n'.key = n.key → n'.status = .pending := by
  obtain ⟨r, hr, h⟩ := (Option.any_eq_true _ _).mp h
  obtain ⟨n, hn, h⟩ := List.any_eq_true.mp h
  simp only [Bool.and_eq_true, decide_eq_true_eq, List.all_eq_true] at h
  obtain ⟨⟨⟨hs, hd⟩, hran⟩, hrows⟩ := h
  refine ⟨r, Transaction.toOption_eq_some.mp hr, n, hn, hs, hd, ?_, hrows⟩
  rintro ⟨g, t, hc⟩
  exact hran _ hc rfl

private theorem skipped_not_failed {conf : RetryDefaults} {s : GraphState}
    (h : (graphSystem conf).Reach s) {n : QraftGraphNode} (hn : n ∈ s.nodes) (hs : n.status = .skipped) :
    n.key ∉ s.nodes.resumeStart none := by
  intro hin
  obtain ⟨m, hm, hk⟩ := List.mem_map.mp hin
  obtain ⟨hm, hf⟩ := List.mem_filter.mp hm
  rw [(reach_valid h).nodes.eq_of_key hm hn hk, hs] at hf
  cases of_decide_eq_true hf

theorem skips_kept_diamond : ∃ s r, (graphSystem {}).Reach s ∧ s.resume {} none 3 = .ok r ∧
    ¬ ∀ n ∈ s.nodes, s.nodes.Below (s.nodes.resumeStart none) n.key →
      n.key ∉ s.nodes.resumeStart none → n.status ≠ .pending → s.EverRan n := by
  obtain ⟨s, h, hs⟩ := exists_reach_of_replay {} diamond skippedBelow undoesSkip (by decide)
  obtain ⟨r, hr, n, hn, hskip, -, hran, hrows⟩ := undoesSkip_spec hs
  refine ⟨s, r, h, hr, ?_⟩
  intro hall
  obtain ⟨n', hn', hk, hs'⟩ := ((skips_kept h hr).2.mpr hall).skipped n hn hskip hran
    (skipped_not_failed h hn hskip)
  cases hs'.symm.trans (hrows n' hn' hk)

/-- The skipped node is put back, and will run once the root succeeds. -/
theorem skip_undone : ∃ s r, (graphSystem {}).Reach s ∧ s.resume {} none 3 = .ok r ∧
    ∃ n ∈ s.nodes, n.status = .skipped ∧ n.dispatchedAt = none ∧ ¬ s.EverRan n ∧
      n.key ∉ s.nodes.resumeStart none ∧
      ∀ n' ∈ r.1.nodes, n'.key = n.key → n'.status = .pending := by
  obtain ⟨s, h, hs⟩ := exists_reach_of_replay {} diamond skippedBelow undoesSkip (by decide)
  obtain ⟨r, hr, n, hn, hskip, hd, hran, hrows⟩ := undoesSkip_spec hs
  exact ⟨s, r, h, hr, n, hn, hskip, hd, hran, skipped_not_failed h hn hskip, hrows⟩

end GraphState
end Qraft
