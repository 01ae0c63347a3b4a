import Qraft.Publication.Effects

/-! Receipts are fenced: at most one for a node and generation, committed with the stamp of an
attempt of the task that is bound. -/
namespace Qraft
open QraftTask

namespace Lifecycle
variable {limit : Nat} {l l' : Lifecycle} {env : Env} {e : LifecycleEvent} {t t' : QraftTask}

/-- A step leaves the columns that say what a task is for. -/
theorem TaskEffect.node (h : TaskEffect limit l env e t t') :
    t'.id = t.id ∧ t'.graphId = t.graphId ∧ t'.graphNode = t.graphNode := by
  rw [h.frame]
  exact ⟨rfl, rfl, rfl⟩

/-- Only `publish()` stamps attempts; attempts that are new bear no stamp. -/
theorem Turn.stamps (h : Turn l env e t t') (hne : ∀ attempt, e ≠ .commitOutput t.id attempt) :
    ∀ a' ∈ t'.attempts,
      (∃ a ∈ t.attempts, a.id = a'.id ∧ a.outputCommittedAt = a'.outputCommittedAt) ∨
        (a'.outputCommittedAt = none ∧ a'.id = l.store.nextId) := by
  have resolved {id : AttemptId} {number : Nat} {routing : Routing}
      (hr : Resolved t id number l.store.nextId env.now t' routing) : ∀ a' ∈ t'.attempts,
      (∃ a ∈ t.attempts, a.id = a'.id ∧ a.outputCommittedAt = a'.outputCommittedAt) ∨
        (a'.outputCommittedAt = none ∧ a'.id = l.store.nextId) := by
    obtain ⟨f, success, hd, hrows⟩ := resolved_rows hr
    have old {a' : QraftTaskAttempt} (ha' : a' ∈ t.attempts.map f) :
        ∃ a ∈ t.attempts, a.id = a'.id ∧ a.outputCommittedAt = a'.outputCommittedAt := by
      obtain ⟨a, ha, rfl⟩ := List.mem_map.mp ha'
      exact ⟨a, ha, (hd.id a).symm, (hd.committed a).symm⟩
    intro a' ha'
    rcases hrows with ⟨-, -, hrows⟩ | ⟨-, -, -, -, b, hrows, hb, -, -, ho, -⟩
    · rw [hrows] at ha'
      exact .inl (old ha')
    · rw [hrows] at ha'
      rcases List.mem_append.mp ha' with ha' | ha'
      · exact .inl (old ha')
      · rw [List.mem_singleton.mp ha']
        exact .inr ⟨ho, hb⟩
  cases h with
  | @kept f hf hrows hs ho =>
    intro a' ha'
    rw [hrows] at ha'
    obtain ⟨a, ha, rfl⟩ := List.mem_map.mp ha'
    rcases ho with ⟨attempt, he⟩ | ho
    · exact absurd he (hne attempt)
    · exact .inl ⟨a, ha, (hf a ha).1.symm, (ho a ha).symm⟩
  | flagged he hd hid h =>
    intro a' ha'
    rw [h] at ha'
    obtain ⟨a, ha, rfl⟩ := Rows.mem_updateWhere.mp ha'
    refine .inl ⟨a, ha, ?_⟩
    split
    · exact ⟨rfl, rfl⟩
    · exact ⟨rfl, rfl⟩
  | resolved ha hn hok h => exact resolved h
  | reaped he hr ht hp h =>
    simp only [reapable, Bool.and_eq_true, decide_eq_true_eq] at hp
    exact resolved (reap_ok hp.1.1.2 h)
  | requeued he hr ht h =>
    obtain ⟨-, b, hb, -, -, -, -, ho, rfl⟩ := scheduleAttempt_ok h
    intro a' ha'
    rcases List.mem_append.mp ha' with ha' | ha'
    · exact .inl ⟨a', ha', rfl, rfl⟩
    · rw [List.mem_singleton.mp ha']
      exact .inr ⟨ho, hb⟩

/-- An attempt is a row of a task that executes a node of the graph. -/
def Held (s : GraphState) (l : Lifecycle) (task : TaskId) (attempt : AttemptId) : Prop :=
  ∃ t, l.store.task? task = some t ∧ s.owns t = true ∧ ∃ a ∈ t.attempts, a.id = attempt

/-- What the table knows of receipts: who published holds a row, and of the graph's attempts just
those that published bear a stamp. -/
structure Stamped (s : GraphState) (block : Option Publication) (l : Lifecycle) : Prop where
  published : ∀ r ∈ s.receipts, Held s l r.task r.attempt
  block : ∀ b, block = some b → Held s l b.task b.attempt
  stamps : ∀ t ∈ l.store.tasks, s.owns t = true → ∀ a ∈ t.attempts,
    a.outputCommittedAt ≠ none ↔ ∃ r ∈ s.receipts, r.attempt = a.id

section
variable {s s' : GraphState} {block : Option Publication} {task : TaskId} {attempt : AttemptId}

theorem owns_congr (hg : t'.graphId = t.graphId) (hn : t'.graphNode = t.graphNode) :
    s.owns t' = s.owns t := by
  unfold GraphState.owns
  rw [hg, hn]

theorem owns_eq (h : s'.graph.id = s.graph.id) : s'.owns = s.owns := by
  funext t
  unfold GraphState.owns
  rw [h]

theorem Held.lt (h : Held s l task attempt) (hd : l.store.Distinct) : attempt < l.store.nextId := by
  obtain ⟨t, ht, -, a, ha, rfl⟩ := h
  exact ((hd.bound t (TaskStore.task?_eq_some ht).1).2 a ha).1

theorem Held.step (h : Held s l task attempt) (hd : l.store.Distinct)
    (hstep : l.step limit env e = some l') : Held s l' task attempt := by
  obtain ⟨t, ht, ho, a, ha, rfl⟩ := h
  obtain ⟨hmem, rfl⟩ := TaskStore.task?_eq_some ht
  obtain ⟨t', ht', heff⟩ := step_task hd hstep ht
  obtain ⟨-, hg, hn⟩ := heff.node
  have hd' := (step_rows hd hstep).1
  obtain ⟨u, hu, hid, a', ha', hlater, -⟩ := (step_rows hd hstep).2.kept t hmem a ha
  have hrow := hd'.task?_of_mem hu
  rw [hid, ht'] at hrow
  obtain rfl := Option.some.inj hrow
  exact ⟨t', ht', (owns_congr hg hn).trans ho, a', ha', hlater.id⟩

/-- No receipt is that of an attempt that is still to come. -/
theorem Stamped.fresh (h : Stamped s block l) (hd : l.store.Distinct) {i : AttemptId}
    (hi : l.store.nextId ≤ i) : ¬ ∃ r ∈ s.receipts, r.attempt = i := by
  rintro ⟨r, hr, rfl⟩
  exact absurd ((h.published r hr).lt hd) (Nat.not_lt.mpr hi)

/-- A step that publishes nothing of the graph's. -/
theorem Stamped.step (h : Stamped s block l) (hd : l.store.Distinct)
    (hstep : l.step limit env e = some l')
    (hf : ∀ task attempt, e = .commitOutput task attempt → ∀ t, l.store.task? task = some t →
      s.owns t = false) : Stamped s block l' := by
  refine ⟨fun r hr => (h.published r hr).step hd hstep, fun b hb => (h.block b hb).step hd hstep, ?_⟩
  intro t' ht' ho' a' ha'
  have unstamped (hnone : a'.outputCommittedAt = none) (hi : l.store.nextId ≤ a'.id) :
      a'.outputCommittedAt ≠ none ↔ ∃ r ∈ s.receipts, r.attempt = a'.id :=
    ⟨fun hne => absurd hnone hne, fun hr => absurd hr (h.fresh hd hi)⟩
  rcases step_origin hd hstep ht' with
    ⟨t, ht, heff⟩ | ⟨metadata, cluster, trace, -, rfl⟩ | ⟨metadata, cluster, -, hok⟩
  · obtain ⟨hid, hg, hn⟩ := heff.node
    have ho : s.owns t = true := (owns_congr hg hn).symm.trans ho'
    have hne : ∀ attempt, e ≠ .commitOutput t.id attempt := by
      intro attempt he
      have hno := hf t.id attempt he t (hid ▸ ht)
      rw [ho] at hno
      cases hno
    rcases heff.turn.stamps hne a' ha' with ⟨a, ha, haid, hstamp⟩ | ⟨hnone, hnew⟩
    · rw [← hstamp, ← haid]
      exact h.stamps t (TaskStore.task?_eq_some ht).1 ho a ha
    · exact unstamped hnone (Nat.le_of_eq hnew.symm)
  · obtain rfl := List.mem_singleton.mp ha'
    exact unstamped rfl (Nat.le_succ _)
  · obtain ⟨-, a, hid, -, -, -, -, hnone, rfl⟩ := scheduleAttempt_ok hok
    obtain rfl := List.mem_singleton.mp ha'
    refine unstamped hnone ?_
    rw [hid]
    exact Nat.le_succ _

/-- Tasks the graph creates publish nothing yet. -/
theorem Stamped.adopt {g : GraphId} {now : Time} {st st' : TaskStore} (h : Stamped s block l)
    (hd : l.store.Distinct) (hg : GraphState.Grown g now st st') (hn : l.store.nextId = st.nextId) :
    Stamped s block (l.adopt st st') := by
  have hboth : (l.adopt st st').store.Distinct ∧ Stamped s block (l.adopt st st') := by
    apply adopt_invariant (fun l => l.store.Distinct ∧ Stamped s block l) _ hg ⟨hd, h⟩ hn
    rintro l l' metadata cluster limit ⟨hd, h⟩ hstep
    exact ⟨(step_rows hd hstep).1, h.step hd hstep fun _ _ he => by cases he⟩
  exact hboth.2

theorem Stamped.heed (h : Stamped s block l) (g : QraftGraph) : Stamped s block (l.heed g) := by
  unfold Lifecycle.heed
  split
  · exact ⟨h.published, h.block, h.stamps⟩
  · exact h

theorem Stamped.congr (h : Stamped s block l) (hid : s'.graph.id = s.graph.id)
    (hr : s'.receipts = s.receipts) : Stamped s' block l := by
  have ho := owns_eq hid
  refine ⟨?_, ?_, ?_⟩
  · intro r hmem
    unfold Held
    rw [ho]
    exact h.published r (hr ▸ hmem)
  · intro b hb
    unfold Held
    rw [ho]
    exact h.block b hb
  · intro t ht hot a ha
    rw [hr]
    exact h.stamps t ht (ho ▸ hot) a ha

/-- An attempt publishes: its stamp goes with the receipt. -/
theorem Stamped.publish {b : Publication} (h : Stamped s (some b) l) (hd : l.store.Distinct)
    (hstep : l.step limit env (.commitOutput b.task b.attempt) = some l') (payload : JsonDict) :
    Stamped (s.publish b payload) none l' := by
  have hheld := h.block b rfl
  have hreceipts := GraphState.publish_receipts (s := s) b payload
  have ho : (s.publish b payload).owns = s.owns := owns_eq rfl
  refine ⟨?_, fun _ hb => (by cases hb), ?_⟩
  · intro r hr
    rw [hreceipts] at hr
    rcases List.mem_append.mp hr with hr | hr
    · exact (h.published r hr).step hd hstep
    · obtain rfl := List.mem_singleton.mp hr
      exact hheld.step hd hstep
  · intro t' ht' hot' a' ha'
    have hsplit : (∃ r ∈ (s.publish b payload).receipts, r.attempt = a'.id) ↔
        (∃ r ∈ s.receipts, r.attempt = a'.id) ∨ b.attempt = a'.id := by
      rw [hreceipts]
      simp [or_and_right, exists_or]
    rw [hsplit]
    obtain ⟨t, ht, rfl⟩ := Option.map_eq_some_iff.mp hstep
    obtain ⟨hmem, hid⟩ := TaskStore.task?_eq_some ht
    obtain ⟨u, hu, hou, c, hc, hcid⟩ := hheld
    obtain rfl := Option.some.inj (ht.symm.trans hu)
    have hsame : (t.commitOutput b.attempt env.now).id = t.id := rfl
    rcases (TaskStore.mem_save hd.tasks hmem hsame t').mp ht' with ⟨hold, hne⟩ | rfl
    · rw [h.stamps t' hold hot' a' ha']
      refine ⟨.inl, ?_⟩
      rintro (hr | hattempt)
      · exact hr
      · exact absurd (hd.owner t' hold a' ha' t hmem c hc (hattempt.symm.trans hcid.symm)) hne
    · obtain ⟨a, ha, rfl⟩ := Rows.mem_updateWhere.mp ha'
      have hold := h.stamps t hmem hou a ha
      by_cases hat : a.id = b.attempt
      · simp [hat]
      · have hno : ¬ b.attempt = a.id := fun he => hat he.symm
        simp only [hat, decide_false, Bool.false_eq_true, if_false, hno, or_false]
        exact hold

end
end Lifecycle
end Qraft
