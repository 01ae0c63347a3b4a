import Qraft.Lifecycle.Messages

/-! Who decides an attempt: the handler of a result for its message, or a reaper that read
no sign of life in its row. -/
namespace Qraft
open QraftTask QraftTaskAttempt TaskStore

namespace Lifecycle

/-- The grounds on which a step decides an attempt. -/
inductive Decides (l : Lifecycle) : LifecycleEvent → AttemptId → Prop where
  | result {i : Nat} {r : Q2Task} {t : QraftTask} {a : QraftTaskAttempt} (hr : l.results[i]? = some r)
      (ht : t ∈ l.store.tasks) (ha : a ∈ t.attempts) (hq : a.q2TaskId = some r.id) :
      Decides l (.handleResult i) a.id
  | reaped {i : Nat} {rd : ReaperRead} (hr : l.reads[i]? = some rd) (hn : rd.row.success = none)
      (hh : ∀ h, rd.row.heartbeatAt = some h → h < rd.heartbeatCutoff) :
      Decides l (.reap i) rd.row.id

/-- An update of one attempt leaves the others. -/
private theorem mem_updateAttempt {t : QraftTask} {id : AttemptId}
    {f : QraftTaskAttempt → QraftTaskAttempt} {b : QraftTaskAttempt}
    (hb : b ∈ (t.updateAttempt id f).attempts) (hf : ∀ a, (f a).id = a.id) :
    b ∈ t.attempts ∨ b.id = id := by
  obtain ⟨a, ha, rfl⟩ := Rows.mem_updateWhere.mp hb
  split
  · rename_i hid
    exact .inr ((hf a).trans (of_decide_eq_true hid))
  · exact .inl ha

/-- A resolution leaves the attempts beside its own undecided. -/
private theorem Resolved.decides {t t' : QraftTask} {id : AttemptId} {number : Nat}
    {newId : AttemptId} {now : Time} {routing : Routing}
    (h : Resolved t id number newId now t' routing) {a' : QraftTaskAttempt}
    (ha' : a' ∈ t'.attempts) (hs : a'.success ≠ none) : a' ∈ t.attempts ∨ a'.id = id := by
  cases h with
  | decided hv hu ht =>
    subst hu
    rcases ht with rfl | rfl
    · exact mem_updateAttempt ha' fun _ => rfl
    · rcases mem_updateAttempt ha' fun _ => rfl with hm | hid
      · exact mem_updateAttempt hm fun _ => rfl
      · exact .inr hid
  | retried hp hl hu =>
    rcases mem_updateAttempt ha' fun _ => rfl with hm | hid
    · rw [(scheduleAttempt_attempts hu).2] at hm
      rcases List.mem_append.mp hm with hm | hm
      · exact mem_updateAttempt hm fun _ => rfl
      · rw [List.mem_singleton.mp hm] at hs
        exact absurd rfl hs
    · exact .inr hid

/-- A rewrite that leaves outcomes alone. -/
private theorem success_updateAttempt {t : QraftTask} {id : AttemptId}
    {f : QraftTaskAttempt → QraftTaskAttempt} {a' : QraftTaskAttempt}
    (ha' : a' ∈ (t.updateAttempt id f).attempts)
    (hf : ∀ a, (f a).id = a.id ∧ (f a).success = a.success) :
    ∃ a ∈ t.attempts, a.id = a'.id ∧ a.success = a'.success := by
  obtain ⟨a, ha, rfl⟩ := Rows.mem_updateWhere.mp ha'
  refine ⟨a, ha, ?_⟩
  split
  · exact ⟨(hf a).1.symm, (hf a).2.symm⟩
  · exact ⟨rfl, rfl⟩

private theorem TaskMove.decides {l : Lifecycle} {env : Env} {e : LifecycleEvent} {t t' : QraftTask}
    (ht : t ∈ l.store.tasks) (h : TaskMove l env e t t') {a' : QraftTaskAttempt}
    (ha' : a' ∈ t'.attempts) (hs : a'.success ≠ none) :
    (∃ a ∈ t.attempts, a.id = a'.id ∧ a.success = a'.success) ∨ l.Decides e a'.id := by
  cases h with
  | claimed hok =>
    obtain ⟨_, rfl⟩ := claimAndEnqueue_eq_some hok
    exact .inl (success_updateAttempt ha' fun _ => ⟨rfl, rfl⟩)
  | published => exact .inl (success_updateAttempt ha' fun _ => ⟨rfl, rfl⟩)
  | routed _ _ => exact .inl (success_updateAttempt ha' fun _ => ⟨rfl, rfl⟩)
  | result hr ha hq hok =>
    rcases handleResult_ok hok with ⟨he, _⟩ | ⟨b, _, _, _, hres⟩
    · cases he
      exact .inl ⟨a', ha', rfl, rfl⟩
    · rcases Resolved.decides hres ha' hs with hm | hid
      · exact .inl ⟨a', hm, rfl, rfl⟩
      · exact .inr (hid ▸ .result hr ht ha hq)
  | reaped hr _ hp hok =>
    simp only [reapable, Bool.and_eq_true, decide_eq_true_eq, Option.all_eq_true] at hp
    rcases Resolved.decides (reap_ok hp.1.1.2 hok) ha' hs with hm | hid
    · exact .inl ⟨a', hm, rfl, rfl⟩
    · exact .inr (hid ▸ .reaped hr hp.1.1.1 hp.1.2)
  | requeued _ _ hok =>
    rw [(scheduleAttempt_attempts hok).2] at ha'
    rcases List.mem_append.mp ha' with hm | hm
    · exact .inl ⟨a', hm, rfl, rfl⟩
    · rw [List.mem_singleton.mp hm] at hs
      exact absurd rfl hs

/-- Whatever is decided after a step was decided before it, or is decided by it. -/
theorem step_decides {limit : Nat} {l l' : Lifecycle} {env : Env} {e : LifecycleEvent}
    (h : l.store.Distinct) (hstep : l.step limit env e = some l') {t' : QraftTask}
    (ht' : t' ∈ l'.store.tasks) {a' : QraftTaskAttempt} (ha' : a' ∈ t'.attempts)
    (hs : a'.success ≠ none) :
    (∃ t ∈ l.store.tasks, ∃ a ∈ t.attempts, a.id = a'.id ∧ a.success = a'.success) ∨
      l.Decides e a'.id := by
  have heff := step_effect hstep
  generalize l'.store = st at heff ht'
  cases heff with
  | idle => exact .inl ⟨t', ht', a', ha', rfl, rfl⟩
  | leased q w =>
    obtain ⟨t, ht, rfl⟩ := List.mem_map.mp ht'
    obtain ⟨a, ha, rfl⟩ := Rows.mem_updateWhere.mp ha'
    refine .inl ⟨t, ht, a, ha, ?_⟩
    split
    · cases w <;> exact ⟨rfl, rfl⟩
    · exact ⟨rfl, rfl⟩
  | rearmed cutoff =>
    obtain ⟨t, ht, rfl⟩ := List.mem_map.mp ht'
    obtain ⟨a, ha, rfl⟩ := Rows.mem_updateWhere.mp ha'
    refine .inl ⟨t, ht, a, ha, ?_⟩
    split
    · exact ⟨rfl, rfl⟩
    · exact ⟨rfl, rfl⟩
  | @written _ t u ht hm =>
    have hid : u.id = t.id := (hm.carries h ht).id
    rcases (mem_save h.tasks ht hid t').mp ht' with ⟨ht', _⟩ | rfl
    · exact .inl ⟨t', ht', a', ha', rfl, rfl⟩
    · rcases TaskMove.decides ht hm ha' hs with ⟨a, ha, hrest⟩ | hd
      · exact .inl ⟨t, ht, a, ha, hrest⟩
      · exact .inr hd
  | enqueued metadata cluster trace =>
    rcases List.mem_append.mp ht' with ht' | ht'
    · exact .inl ⟨t', ht', a', ha', rfl, rfl⟩
    · rw [List.mem_singleton.mp ht'] at ha'
      rw [List.mem_singleton.mp ha'] at hs
      exact absurd rfl hs
  | scheduled hok =>
    rcases List.mem_append.mp ht' with ht' | ht'
    · exact .inl ⟨t', ht', a', ha', rfl, rfl⟩
    · rw [List.mem_singleton.mp ht', (scheduleAttempt_attempts hok).2] at ha'
      rw [List.mem_singleton.mp ha'] at hs
      exact absurd rfl hs

section
variable {limit : Nat} {l l' : Lifecycle} {env : Env} {e : LifecycleEvent}
  (h : l.step limit env e = some l')
include h

theorem step_unqueued {id : AttemptId} (hid : id ∈ l.unqueued) : id ∈ l'.unqueued := by
  cases e with
  | checkQueue i =>
    obtain ⟨c, _, rfl⟩ := Option.map_eq_some_iff.mp h
    simp only
    split
    · exact hid
    · exact List.mem_append_left _ hid
  | _ =>
    simp only [step, Option.bind_eq_some_iff, Option.map_eq_some_iff] at h
    grind [commit, resolve, Option.map_eq_some_iff]

/-- A sweep takes an attempt down for its heartbeat, or because it is not queued. -/
theorem step_orphans {c : Candidate} (hc : c ∈ l'.orphans) :
    c ∈ l.orphans ∨ c.attempt ∈ l'.unqueued ∨
      ∃ t a, l.find c.task c.attempt = some (t, a) ∧ a.heartbeatAt ≠ none := by
  cases e with
  | selectStale task attempt cutoff =>
    obtain ⟨⟨t, a⟩, hf, h⟩ := Option.bind_eq_some_iff.mp h
    simp only at h
    split at h
    · rename_i hsel
      cases h
      rcases List.mem_append.mp hc with hc | hc
      · exact .inl hc
      · rw [List.mem_singleton.mp hc]
        refine .inr (.inr ⟨t, a, hf, ?_⟩)
        intro hnone
        simp [hnone] at hsel
    · cases h
  | checkQueue i =>
    obtain ⟨x, hx, rfl⟩ := Option.map_eq_some_iff.mp h
    simp only at hc ⊢
    split at hc
    · exact .inl hc
    · rename_i hq
      rcases List.mem_append.mp hc with hc | hc
      · exact .inl hc
      · rw [List.mem_singleton.mp hc, if_neg hq]
        exact .inr (.inl (List.mem_append_right _ (List.mem_singleton.mpr rfl)))
  | readOrphan i =>
    obtain ⟨x, _, h⟩ := Option.bind_eq_some_iff.mp h
    obtain ⟨y, _, rfl⟩ := Option.map_eq_some_iff.mp h
    exact .inl ((List.eraseIdx_sublist _ _).subset hc)
  | _ =>
    simp only [step, Option.bind_eq_some_iff, Option.map_eq_some_iff] at h
    grind [commit, resolve, Option.map_eq_some_iff]

end

/-- What sweeps and reapers know of the attempts they hold. -/
structure Swept (l : Lifecycle) : Prop where
  distinct : l.store.Distinct
  beats : ∀ t ∈ l.store.tasks, ∀ a ∈ t.attempts, a.dateStarted ≠ none → a.heartbeatAt ≠ none
  orphans : ∀ c ∈ l.orphans, c.attempt ∈ l.unqueued ∨
    ∃ t ∈ l.store.tasks, ∃ a ∈ t.attempts, a.id = c.attempt ∧ a.heartbeatAt ≠ none
  reads : ∀ rd ∈ l.reads, rd.row.heartbeatAt = none →
    rd.row.dateStarted = none ∧ rd.row.id ∈ l.unqueued

/-- An execution begins with a heartbeat. -/
private theorem Swept.beats_step {limit : Nat} {l l' : Lifecycle} {env : Env} {e : LifecycleEvent}
    (h : l.Swept) (hstep : l.step limit env e = some l') :
    ∀ t ∈ l'.store.tasks, ∀ a ∈ t.attempts, a.dateStarted ≠ none → a.heartbeatAt ≠ none := by
  obtain ⟨-, hrows⟩ := step_rows h.distinct hstep
  intro t' ht' a' ha' hd
  cases hb : begins e with
  | false =>
    rcases hrows.origin t' ht' a' ha' with ⟨t, ht, -, a, ha, hl, hs⟩ | hun
    · exact hl.heartbeat (h.beats t ht a ha ((hs hb).2 ▸ hd))
    · exact absurd hun.2.2.1 hd
  | true =>
    cases e with
    | lease q w =>
      cases hstep
      obtain ⟨t, ht, rfl⟩ := List.mem_map.mp ht'
      obtain ⟨a, ha, rfl⟩ := Rows.mem_updateWhere.mp ha'
      split
      · cases w with
        | start => simp [LeaseWrite.write]
        | again => simp [LeaseWrite.write]
        | touch => cases hb
        | returned => cases hb
      · rename_i hsel
        rw [if_neg hsel] at hd
        exact h.beats t ht a ha hd
    | _ => cases hb

theorem Swept.step {limit : Nat} {l l' : Lifecycle} {env : Env} {e : LifecycleEvent}
    (h : l.Swept) (hstep : l.step limit env e = some l') : l'.Swept := by
  obtain ⟨hdistinct, hrows⟩ := step_rows h.distinct hstep
  have hlives : ∀ id, (∃ t ∈ l.store.tasks, ∃ a ∈ t.attempts, a.id = id ∧ a.heartbeatAt ≠ none) →
      ∃ t ∈ l'.store.tasks, ∃ a ∈ t.attempts, a.id = id ∧ a.heartbeatAt ≠ none := by
    rintro id ⟨t, ht, a, ha, hid, hh⟩
    obtain ⟨t', ht', -, a', ha', hl, -⟩ := hrows.kept t ht a ha
    exact ⟨t', ht', a', ha', hl.id.trans hid, hl.heartbeat hh⟩
  refine ⟨hdistinct, h.beats_step hstep, ?_, ?_⟩
  · intro c hc
    rcases step_orphans hstep hc with hc | hu | ⟨t, a, hf, hh⟩
    · exact (h.orphans c hc).imp (step_unqueued hstep) (hlives c.attempt)
    · exact .inl hu
    · obtain ⟨ht, -, ha, hid⟩ := find_eq_some hf
      exact .inr (hlives c.attempt ⟨t, ht, a, ha, hid, hh⟩)
  · intro rd hr hn
    rcases step_reads hstep hr with hr | ⟨c, hc, t, hf, -, -⟩
    · obtain ⟨hd, hu⟩ := h.reads rd hr hn
      exact ⟨hd, step_unqueued hstep hu⟩
    · obtain ⟨ht, -, ha, hid⟩ := find_eq_some hf
      refine ⟨?_, ?_⟩
      · by_contra hd
        exact h.beats t ht rd.row ha hd hn
      · rcases h.orphans c hc with hu | ⟨u, hu, b, hb, hbid, hh⟩
        · exact step_unqueued hstep (hid ▸ hu)
        · -- The row read is the row that once had a heartbeat.
          obtain ⟨-, rfl⟩ := h.distinct.eq_of_id hu hb ht ha (hbid.trans hid.symm)
          exact absurd hn hh

theorem reach_swept {limit : Nat} {l : Lifecycle} (h : (lifecycleSystem limit).Reach l) : l.Swept := by
  apply h.invariant Swept
  · rintro l rfl
    have hstart : (lifecycleSystem limit).Reach {} := .init rfl
    have hdistinct := reach_distinct hstart
    refine ⟨hdistinct, ?_, ?_, ?_⟩ <;> exact fun x hx => absurd hx List.not_mem_nil
  · intro l e l' hl _ hstep
    exact hl.step hstep

end Lifecycle
end Qraft
