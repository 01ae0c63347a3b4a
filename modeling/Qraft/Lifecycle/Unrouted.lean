import Qraft.Lifecycle.Members

/-! Attempts whose routing is still to come. As long as a task publishes nothing, one of its
attempts stays unrouted until a process that routed it flags it. -/
namespace Qraft
open QraftTask

namespace QraftTask
variable {t t' : QraftTask} {id newId : AttemptId} {env : Env} {cancelled : Bool}

/-- A decided task is still to be routed: its resolution flags no attempt. -/
theorem handleResult_due {result : Q2Task}
    (h : t.handleResult id result cancelled newId env = .ok (t', .due)) :
    (t'.attempts.map fun a => a.routed) = t.attempts.map fun a => a.routed := by
  have kept (success : Bool) (exc : Option String) (completed : Time) :
      ((t.updateAttempt id fun a => a.decide success exc completed).attempts.map fun a => a.routed) =
        t.attempts.map fun a => a.routed :=
    Rows.map_updateWhere (fun a : QraftTaskAttempt => a.routed) fun _ _ _ => rfl
  unfold handleResult at h
  split at h
  · cases h
  · simp only at h
    split at h
    · cases h
      exact kept _ _ _
    · obtain ⟨⟨u, scheduled⟩, hu, he⟩ := Transaction.bind_eq_ok.mp h
      rcases handleTaskRetry_ok hu with ⟨rfl, rfl | rfl⟩ | ⟨rfl, -⟩
      · cases he
        exact kept _ _ _
      · cases he
        exact kept _ _ _
      · cases he

/-- A reap of an attempt that published nothing fails it. -/
theorem reap_due {row : QraftTaskAttempt} (hrow : row.outputCommittedAt = none)
    (hrun : t.status = .running) (h : t.reap row cancelled newId env = .ok (t', .due)) :
    t'.status.verdict = some false ∧
      (t'.attempts.map fun a => a.routed) = t.attempts.map fun a => a.routed := by
  have kept (success : Bool) (exc : Option String) (completed : Time) :
      ((t.updateAttempt row.id fun a => a.decide success exc completed).attempts.map fun a => a.routed) =
        t.attempts.map fun a => a.routed :=
    Rows.map_updateWhere (fun a : QraftTaskAttempt => a.routed) fun _ _ _ => rfl
  unfold reap at h
  rw [if_neg (not_not.mpr hrow)] at h
  simp only at h
  split at h
  · simp only [updateAttempt_status, hrun, if_true] at h
    cases h
    exact ⟨rfl, kept _ _ _⟩
  · obtain ⟨⟨u, scheduled⟩, hu, he⟩ := Transaction.bind_eq_ok.mp h
    rcases handleTaskRetry_ok hu with ⟨rfl, rfl | rfl⟩ | ⟨rfl, -⟩
    · simp only [updateAttempt_status, hrun, if_true] at he
      cases he
      exact ⟨rfl, kept _ _ _⟩
    · simp only [setStatus_status, reduceCtorEq, if_false] at he
      cases he
      exact ⟨rfl, kept _ _ _⟩
    · cases he

end QraftTask

namespace Lifecycle

/-- Whether every attempt of a task is decided and flagged routed. -/
def replayed (l : Lifecycle) (task : TaskId) : Bool :=
  (l.store.task? task).all fun t => t.attempts.all fun a => a.success.isSome && a.routed

/-- An attempt that is not flagged, and goes with what its task says of itself. -/
structure Unrouted (t : QraftTask) (a : QraftTaskAttempt) : Prop where
  mem : a ∈ t.attempts
  routed : a.routed = false
  undecided : t.status.verdict = none → a.success = none
  succeeded : t.status = .succeeded → a.success = some true

/-- A process may have read this outcome of an attempt; a success can be overwritten since. -/
def ReadAs (t : QraftTask) (attempt : AttemptId) (success : Bool) : Prop :=
  ∃ a ∈ t.attempts, a.id = attempt ∧ a.success ≠ none ∧ (success = false → a.success = some false)

/-- A task that published nothing, with what the processes know of it. -/
structure Unpublished (l : Lifecycle) (t : QraftTask) : Prop where
  attempts : ∀ a ∈ t.attempts, a.outputCommittedAt = none
  undecided : ∀ a ∈ t.attempts, a.success = none → a.routed = false
  reads : ∀ rd ∈ l.reads, rd.task = t.id →
    rd.row.outputCommittedAt = none ∧ ∃ a ∈ t.attempts, a.id = rd.row.id
  due : ∀ x ∈ l.due, x.1.id = t.id → ReadAs t x.2 true ∧
    ∀ b ∈ x.1.attempts, b.id = x.2 → b.success = some false → ReadAs t x.2 false

/-- A task that is not through routing: one of its attempts is unrouted, and no process is done
with that one. -/
def Owing (l : Lifecycle) (done : AttemptId → Prop) (task : TaskId) : Prop :=
  ∃ t a, l.store.task? task = some t ∧ Unrouted t a ∧ ¬ done a.id

section
variable {limit : Nat} {l l' : Lifecycle} {env : Env} {e : LifecycleEvent} {i : TaskId}
  {t t' : QraftTask}

/-- A failure that was read of an unrouted attempt is final. -/
theorem Unrouted.dead {a : QraftTaskAttempt} (h : Unrouted t a)
    (hids : (t.attempts.map fun a => a.id).Nodup) (hread : ReadAs t a.id false) : t.status.Dead := by
  obtain ⟨b, hb, hid, -, hs⟩ := hread
  obtain rfl := Rows.eq_of_key_eq hids hb h.mem hid
  have hs := hs rfl
  cases hst : t.status with
  | pending | running =>
    have hnone := h.undecided (by rw [hst]; rfl)
    cases hs.symm.trans hnone
  | succeeded => cases hs.symm.trans (h.succeeded hst)
  | failed => exact .inl rfl
  | exhausted => exact .inr rfl

theorem Owing.mono {done done' : AttemptId → Prop} (h : Owing l done i) (hd : ∀ a, done' a → done a) :
    Owing l done' i := by
  obtain ⟨t, a, ht, ha, hnot⟩ := h
  exact ⟨t, a, ht, ha, fun h => hnot (hd _ h)⟩

theorem Owing.not_replayed {done : AttemptId → Prop} (h : Owing l done i) : l.replayed i = false := by
  obtain ⟨t, a, ht, ha, -⟩ := h
  by_contra hr
  have hr : (l.store.task? i).all (fun t => t.attempts.all fun a => a.success.isSome && a.routed) = true :=
    Bool.of_not_eq_false hr
  rw [ht, Option.all_some] at hr
  have hrow := List.all_eq_true.mp hr a ha.mem
  rw [ha.routed, Bool.and_false] at hrow
  cases hrow

/-- What resolves an attempt of a task that publishes nothing: the handler resolves an undecided
one, the reaper fails one. -/
structure Resolves (newId : AttemptId) (id : AttemptId) (t t' : QraftTask) : Prop where
  rows : ∃ number now routing, Resolved t id number newId now t' routing ∧
    (routing = .due → (t'.attempts.map fun a => a.routed) = t.attempts.map fun a => a.routed)
  mem : ∃ a ∈ t.attempts, a.id = id
  undecided : t'.status.verdict = some true → ∃ a ∈ t.attempts, a.id = id ∧ a.success = none

namespace Resolves
variable {newId id : AttemptId}

/-- Failing the attempt, or deciding one that was not decided. -/
private theorem outcome (h : Resolves newId id t t') : ∃ f success, DecidesAt id success f ∧
    (success = true → ∃ a ∈ t.attempts, a.id = id ∧ a.success = none) ∧
    ((t'.status.verdict = some success ∧ t'.attempts = t.attempts.map f ∧
        ∀ a ∈ t.attempts, (f a).routed = a.routed) ∨
      (success = false ∧ t'.status = .pending ∧ ∃ b, t'.attempts = t.attempts.map f ++ [b] ∧
        b.id = newId ∧ b.success = none ∧ b.outputCommittedAt = none ∧ (newId ≠ id → b.routed = false))) := by
  obtain ⟨number, now, routing, hres, hflag⟩ := h.rows
  obtain ⟨f, success, hd, ⟨rfl, hv, hrows⟩ | ⟨-, rfl, hp, -, b, hrows, hid, -, hb⟩⟩ := resolved_rows hres
  · refine ⟨f, success, hd, ?_, .inl ⟨hv, hrows, ?_⟩⟩
    · rintro rfl
      exact h.undecided hv
    · have hmap := hflag rfl
      rw [hrows, List.map_map] at hmap
      exact List.map_inj_left.mp hmap
  · exact ⟨f, false, hd, nofun, .inr ⟨rfl, hp, b, hrows, hid, hb⟩⟩

theorem read (h : Resolves newId id t t') (hids : (t.attempts.map fun a => a.id).Nodup)
    {attempt : AttemptId} {success : Bool} (hr : ReadAs t attempt success) : ReadAs t' attempt success := by
  obtain ⟨a, ha, rfl, hdec, hs⟩ := hr
  obtain ⟨f, s, hd, hnew, hrows⟩ := h.outcome
  have hmem : f a ∈ t'.attempts := by
    rcases hrows with ⟨-, hrows, -⟩ | ⟨-, -, b, hrows, -⟩
    · rw [hrows]
      exact List.mem_map_of_mem ha
    · rw [hrows]
      exact List.mem_append_left _ (List.mem_map_of_mem ha)
  by_cases hid : a.id = id
  · have hfalse : s = false := by
      cases s with
      | false => rfl
      | true =>
        obtain ⟨b, hb, hbid, hnone⟩ := hnew rfl
        rw [Rows.eq_of_key_eq hids hb ha (hbid.trans hid.symm)] at hnone
        exact absurd hnone hdec
    have hf := hd.decided a hid
    rw [hfalse] at hf
    refine ⟨f a, hmem, hd.id a, ?_, fun _ => hf⟩
    rw [hf]
    exact Option.some_ne_none _
  · rw [hd.same a hid] at hmem
    exact ⟨a, hmem, rfl, hdec, hs⟩

theorem columns (h : Resolves newId id t t') (hne : newId ≠ id)
    (hc : ∀ a ∈ t.attempts, a.outputCommittedAt = none) (hu : ∀ a ∈ t.attempts, a.success = none → a.routed = false) :
    (∀ a ∈ t'.attempts, a.outputCommittedAt = none) ∧ ∀ a ∈ t'.attempts, a.success = none → a.routed = false := by
  obtain ⟨f, s, hd, -, hrows⟩ := h.outcome
  have old {a : QraftTaskAttempt} (ha : a ∈ t.attempts.map f) :
      a.outputCommittedAt = none ∧ (a.success = none → a.routed = false) := by
    obtain ⟨c, hcm, rfl⟩ := List.mem_map.mp ha
    refine ⟨(hd.committed c).trans (hc c hcm), ?_⟩
    intro hnone
    by_cases hid : c.id = id
    · rw [hd.decided c hid] at hnone
      cases hnone
    · rw [hd.same c hid] at hnone ⊢
      exact hu c hcm hnone
  have all {a : QraftTaskAttempt} (ha : a ∈ t'.attempts) :
      a.outputCommittedAt = none ∧ (a.success = none → a.routed = false) := by
    rcases hrows with ⟨-, hrows, -⟩ | ⟨-, -, b, hrows, -, -, hb, hrouted⟩
    · rw [hrows] at ha
      exact old ha
    · rw [hrows] at ha
      rcases List.mem_append.mp ha with ha | ha
      · exact old ha
      · rw [List.mem_singleton.mp ha]
        exact ⟨hb, fun _ => hrouted hne⟩
  exact ⟨fun a ha => (all ha).1, fun a ha => (all ha).2⟩

/-- Another attempt may take over: the one just decided, or the one just added. -/
theorem unrouted (h : Resolves newId id t t') (hids : (t.attempts.map fun a => a.id).Nodup)
    (hnew : ∀ a ∈ t.attempts, a.id ≠ newId) (hu : ∀ a ∈ t.attempts, a.success = none → a.routed = false)
    {a : QraftTaskAttempt} (ha : Unrouted t a) :
    ∃ a', Unrouted t' a' ∧ (a'.id = a.id ∨ ∀ b ∈ t.attempts, b.id = a'.id → b.success = none) := by
  obtain ⟨f, s, hd, hsucc, ⟨hv, hrows, hrouted⟩ | ⟨-, hp, b, hrows, hid, hnone, -, hflag⟩⟩ := h.outcome
  · cases s with
    | false =>
      refine ⟨f a, ⟨?_, (hrouted a ha.mem).trans ha.routed, ?_, ?_⟩, .inl (hd.id a)⟩
      · rw [hrows]
        exact List.mem_map_of_mem ha.mem
      · exact fun hnone => by cases hv.symm.trans hnone
      · intro hst
        rw [hst] at hv
        cases hv
    | true =>
      obtain ⟨x, hx, hxid, hnone⟩ := hsucc rfl
      refine ⟨f x, ⟨?_, (hrouted x hx).trans (hu x hx hnone), ?_, fun _ => hd.decided x hxid⟩, .inr ?_⟩
      · rw [hrows]
        exact List.mem_map_of_mem hx
      · exact fun hnone => by cases hv.symm.trans hnone
      · intro b hb hbid
        rw [Rows.eq_of_key_eq hids hb hx (hbid.trans (hd.id x))]
        exact hnone
  · obtain ⟨x, hx, hxid⟩ := h.mem
    refine ⟨b, ⟨?_, hflag fun he => hnew x hx (hxid.trans he.symm), fun _ => hnone, ?_⟩, .inr ?_⟩
    · rw [hrows]
      exact List.mem_append_right _ (List.mem_singleton.mpr rfl)
    · intro hst
      cases hp.symm.trans hst
    · exact fun c hc hcid => absurd (hcid.trans hid) (hnew c hc)

end Resolves

/-- What a step makes of a task that publishes nothing. -/
inductive Onward (l : Lifecycle) (e : LifecycleEvent) (t t' : QraftTask) : Prop where
  | kept {f : QraftTaskAttempt → QraftTaskAttempt} (hf : ∀ a ∈ t.attempts, SameRoute a (f a))
      (ha : t'.attempts = t.attempts.map f)
      (hs : t'.status = t.status ∨ (t.status = .pending ∧ t'.status = .running))
      (ho : ∀ a ∈ t.attempts, (f a).outputCommittedAt = a.outputCommittedAt)
  | flagged {j : Nat} {held : QraftTask} {attempt : AttemptId} (he : e = .route j)
      (hd : l.due[j]? = some (held, attempt)) (hid : held.id = t.id) (h : t' = t.markRouted attempt)
  | resolved {id : AttemptId} (h : Resolves l.store.nextId id t t')
  | reopened {b : QraftTaskAttempt} (hid : b.id = l.store.nextId) (hs : b.success = none)
      (ho : b.outputCommittedAt = none) (hr : b.routed = false) (ha : t'.attempts = t.attempts ++ [b])
      (hp : t'.status = .pending)

theorem Turn.onward (h : Turn l env e t t') (hu : Unpublished l t)
    (hpub : ∀ attempt, e ≠ .commitOutput t.id attempt) : Onward l e t t' := by
  cases h with
  | kept hf ha hs ho =>
    refine .kept hf ha hs (ho.resolve_left ?_)
    rintro ⟨attempt, he⟩
    exact hpub attempt he
  | flagged he hd hid h => exact .flagged he hd hid h
  | @resolved a r routing ha hn hok h =>
    refine .resolved ⟨⟨_, _, routing, h, ?_⟩, ⟨a, ha, rfl⟩, fun _ => ⟨a, ha, rfl, hn⟩⟩
    rintro rfl
    exact handleResult_due hok
  | @reaped j rd routing he hr ht hp hok =>
    have hrun : t.status = .running := by
      simp only [reapable, Bool.and_eq_true, decide_eq_true_eq] at hp
      exact hp.1.1.2
    obtain ⟨hrow, hmem⟩ := hu.reads rd (List.mem_of_getElem? hr) (TaskStore.task?_eq_some ht).2.symm
    have hres := reap_ok hrun hok
    refine .resolved ⟨⟨_, _, routing, hres, ?_⟩, hmem, ?_⟩
    · rintro rfl
      exact (reap_due hrow hrun hok).2
    · intro hv
      obtain ⟨f, success, hd, ⟨rfl, -, -⟩ | ⟨-, -, hst, -⟩⟩ := resolved_rows hres
      · cases (reap_due hrow hrun hok).1.symm.trans hv
      · rw [hst] at hv
        cases hv
  | requeued he hr ht hok =>
    obtain ⟨-, b, hb, -, -, hs, -, ho, hb'⟩ := scheduleAttempt_ok hok
    obtain ⟨-, hrows⟩ := scheduleAttempt_attempts hok
    rw [hb'] at hrows ⊢
    have hlast := List.append_cancel_left hrows
    refine .reopened hb hs ho ?_ rfl rfl
    rw [(List.cons.inj hlast).1]
    rfl

namespace Onward

theorem read (h : Onward l e t t') (hids : (t.attempts.map fun a => a.id).Nodup) {attempt : AttemptId}
    {success : Bool} (hr : ReadAs t attempt success) : ReadAs t' attempt success := by
  cases h with
  | @kept f hf hrows hs ho =>
    obtain ⟨a, ha, hid, hdec, hfail⟩ := hr
    obtain ⟨hid', -, hs', -⟩ := hf a ha
    refine ⟨f a, ?_, hid'.trans hid, hs' ▸ hdec, fun h => hs'.trans (hfail h)⟩
    rw [hrows]
    exact List.mem_map_of_mem ha
  | flagged he hd hid h =>
    obtain ⟨a, ha, hid, hdec, hfail⟩ := hr
    subst h
    refine ⟨_, Rows.mem_updateWhere_of_mem ha, ?_⟩
    split
    · exact ⟨hid, hdec, hfail⟩
    · exact ⟨hid, hdec, hfail⟩
  | resolved h => exact h.read hids hr
  | reopened hid hs ho hr' hrows hp =>
    obtain ⟨a, ha, hrest⟩ := hr
    refine ⟨a, ?_, hrest⟩
    rw [hrows]
    exact List.mem_append_left _ ha

theorem columns (h : Onward l e t t') (hids : (t.attempts.map fun a => a.id).Nodup)
    (hnew : ∀ a ∈ t.attempts, a.id ≠ l.store.nextId) (hu : Unpublished l t) :
    (∀ a ∈ t'.attempts, a.outputCommittedAt = none) ∧ ∀ a ∈ t'.attempts, a.success = none → a.routed = false := by
  cases h with
  | @kept f hf hrows hs ho =>
    rw [hrows]
    refine ⟨?_, ?_⟩
    · intro a ha
      obtain ⟨c, hc, rfl⟩ := List.mem_map.mp ha
      exact (ho c hc).trans (hu.attempts c hc)
    · intro a ha hnone
      obtain ⟨c, hc, rfl⟩ := List.mem_map.mp ha
      obtain ⟨-, -, hs', hr'⟩ := hf c hc
      exact hr'.trans (hu.undecided c hc (hs'.symm.trans hnone))
  | @flagged j held attempt he hd hid h =>
    subst h
    refine ⟨?_, ?_⟩
    · intro a ha
      obtain ⟨c, hc, rfl⟩ := Rows.mem_updateWhere.mp ha
      split
      · exact hu.attempts c hc
      · exact hu.attempts c hc
    · intro a ha hnone
      obtain ⟨c, hc, rfl⟩ := Rows.mem_updateWhere.mp ha
      obtain ⟨⟨b, hb, hbid, hdec, -⟩, -⟩ := hu.due (held, attempt) (List.mem_of_getElem? hd) hid
      by_cases hca : c.id = attempt
      · rw [if_pos (decide_eq_true hca)] at hnone
        rw [Rows.eq_of_key_eq hids hb hc (hbid.trans hca.symm)] at hdec
        exact absurd hnone hdec
      · rw [if_neg fun h => hca (of_decide_eq_true h)] at hnone ⊢
        exact hu.undecided c hc hnone
  | @resolved id h =>
    obtain ⟨a, ha, haid⟩ := h.mem
    exact h.columns (fun he => hnew a ha (haid.trans he.symm)) hu.attempts hu.undecided
  | reopened hid hs ho hr hrows hp =>
    rw [hrows]
    refine ⟨?_, ?_⟩
    · intro a ha
      rcases List.mem_append.mp ha with ha | ha
      · exact hu.attempts a ha
      · rw [List.mem_singleton.mp ha]
        exact ho
    · intro a ha hnone
      rcases List.mem_append.mp ha with ha | ha
      · exact hu.undecided a ha hnone
      · rw [List.mem_singleton.mp ha]
        exact hr

/-- An attempt that was not flagged stays unrouted, or another takes over that no process has
read. -/
theorem unrouted (h : Onward l e t t') (hids : (t.attempts.map fun a => a.id).Nodup)
    (hnew : ∀ a ∈ t.attempts, a.id ≠ l.store.nextId) (hu : Unpublished l t) {a : QraftTaskAttempt}
    (ha : Unrouted t a) (hroute : ∀ j held, e = .route j → l.due[j]? = some (held, a.id) → held.id ≠ t.id) :
    ∃ a', Unrouted t' a' ∧ (a'.id = a.id ∨ ∀ b ∈ t.attempts, b.id = a'.id → b.success = none) := by
  cases h with
  | @kept f hf hrows hs ho =>
    obtain ⟨hid, -, hsu, hr⟩ := hf a ha.mem
    refine ⟨f a, ⟨?_, hr.trans ha.routed, ?_, ?_⟩, .inl hid⟩
    · rw [hrows]
      exact List.mem_map_of_mem ha.mem
    · intro hv
      rw [hsu]
      apply ha.undecided
      rcases hs with hs | ⟨hp, -⟩
      · rw [← hs]
        exact hv
      · rw [hp]
        rfl
    · intro hst
      rw [hsu]
      apply ha.succeeded
      rcases hs with hs | ⟨-, hrun⟩
      · rw [← hs]
        exact hst
      · cases hrun.symm.trans hst
  | @flagged j held attempt he hd hid h =>
    subst h
    have hne : a.id ≠ attempt := fun heq => hroute j held he (heq ▸ hd) hid
    have hmem := Rows.mem_updateWhere_of_mem (p := fun b => b.id = attempt)
      (f := fun b => { b with routed := true }) ha.mem
    rw [if_neg fun h => hne (of_decide_eq_true h)] at hmem
    exact ⟨a, ⟨hmem, ha.routed, ha.undecided, ha.succeeded⟩, .inl rfl⟩
  | resolved h => exact h.unrouted hids hnew hu.undecided ha
  | @reopened b hid hs ho hr hrows hp =>
    refine ⟨b, ⟨?_, hr, fun _ => hs, ?_⟩, .inr ?_⟩
    · rw [hrows]
      exact List.mem_append_right _ (List.mem_singleton.mpr rfl)
    · intro hst
      cases hp.symm.trans hst
    · exact fun c hc hcid => absurd (hcid.trans hid) (hnew c hc)

end Onward

namespace Unpublished

/-- The row of the task after a step. -/
private theorem onward (h : Unpublished l t) (hd : l.store.Distinct) (hstep : l.step limit env e = some l')
    (ht : l.store.task? i = some t) (hpub : ∀ attempt, e ≠ .commitOutput i attempt) :
    ∃ t', l'.store.task? i = some t' ∧ t'.id = t.id ∧ Onward l e t t' ∧
      ∀ a ∈ t.attempts, ∃ a' ∈ t'.attempts, a'.id = a.id := by
  obtain ⟨t', ht', heff⟩ := step_task hd hstep ht
  obtain ⟨-, hid⟩ := TaskStore.task?_eq_some ht
  have hid' := (TaskStore.task?_eq_some ht').2
  have hon := heff.turn.onward h (fun attempt => hid ▸ hpub attempt)
  refine ⟨t', ht', hid'.trans hid.symm, hon, ?_⟩
  intro a ha
  cases hon with
  | @kept f hf hrows hs ho =>
    refine ⟨f a, ?_, (hf a ha).1⟩
    rw [hrows]
    exact List.mem_map_of_mem ha
  | flagged he hd hid h =>
    subst h
    refine ⟨_, Rows.mem_updateWhere_of_mem ha, ?_⟩
    split
    · rfl
    · rfl
  | resolved h =>
    obtain ⟨f, s, hdec, -, ⟨-, hrows, -⟩ | ⟨-, -, b, hrows, -⟩⟩ := h.outcome
    · refine ⟨f a, ?_, hdec.id a⟩
      rw [hrows]
      exact List.mem_map_of_mem ha
    · refine ⟨f a, ?_, hdec.id a⟩
      rw [hrows]
      exact List.mem_append_left _ (List.mem_map_of_mem ha)
  | reopened hid hs ho hr hrows hp =>
    refine ⟨a, ?_, rfl⟩
    rw [hrows]
    exact List.mem_append_left _ ha

/-- A task that publishes nothing goes on publishing nothing, and what was read of it stands. -/
theorem next (h : Unpublished l t) (hd : l.store.Distinct) (hstep : l.step limit env e = some l')
    (ht : l.store.task? i = some t) (hpub : ∀ attempt, e ≠ .commitOutput i attempt) :
    ∃ t', l'.store.task? i = some t' ∧ Unpublished l' t' ∧
      ∀ attempt success, ReadAs t attempt success → ReadAs t' attempt success := by
  obtain ⟨t', ht', hid', hon, hkeep⟩ := h.onward hd hstep ht hpub
  obtain ⟨hmem, hid⟩ := TaskStore.task?_eq_some ht
  have hids := hd.attempts t hmem
  have hnew : ∀ a ∈ t.attempts, a.id ≠ l.store.nextId := fun a ha =>
    Nat.ne_of_lt ((hd.bound t hmem).2 a ha).1
  have hread (attempt : AttemptId) (success : Bool) (hr : ReadAs t attempt success) :
      ReadAs t' attempt success := hon.read hids hr
  obtain ⟨hcommitted, hundecided⟩ := hon.columns hids hnew h
  refine ⟨t', ht', ⟨hcommitted, hundecided, ?_, ?_⟩, hread⟩
  · intro rd hrd hrid
    rcases step_reads hstep hrd with hold | ⟨c, -, u, hf, hc, -⟩
    · obtain ⟨hrow, a, ha, haid⟩ := h.reads rd hold (hrid.trans hid')
      obtain ⟨a', ha', hid₂⟩ := hkeep a ha
      exact ⟨hrow, a', ha', hid₂.trans haid⟩
    · obtain ⟨hu, huid, ha, -⟩ := find_eq_some hf
      have hut : u = t := by
        apply Rows.eq_of_key_eq hd.tasks hu hmem
        exact huid.trans (hc.symm.trans (hrid.trans hid'))
      subst hut
      exact ⟨h.attempts _ ha, hkeep _ ha⟩
  · intro x hx hxid
    rcases step_due hd hstep hx with hold | ⟨a, hfind, hsame, ha, haid, hdec, -⟩ |
      ⟨u, number, hfind, hfind', -, hres, hwho⟩
    · obtain ⟨hany, hfail⟩ := h.due x hold (hxid.trans hid')
      exact ⟨hread _ _ hany, fun b hb hbid hs => hread _ _ (hfail b hb hbid hs)⟩
    · rw [hxid, hid', hid, ht] at hfind
      obtain rfl := Option.some.inj hfind
      refine ⟨hread _ _ ⟨a, ha, haid, hdec, nofun⟩, ?_⟩
      intro b hb hbid hs
      refine hread _ _ ⟨b, hb, hbid, ?_, fun _ => hs⟩
      rw [hs]
      exact Option.some_ne_none _
    · rw [hxid, hid', hid] at hfind hfind'
      obtain rfl := Option.some.inj (ht.symm.trans hfind)
      obtain rfl := Option.some.inj (ht'.symm.trans hfind')
      have hold : ∃ a ∈ t.attempts, a.id = x.2 := by
        rcases hwho with ⟨a, ha, haid, -⟩ | ⟨j, rd, -, hrd, htask, -, hrid⟩
        · exact ⟨a, ha, haid⟩
        · obtain ⟨-, a, ha, haid⟩ := h.reads rd (List.mem_of_getElem? hrd)
            (TaskStore.task?_eq_some htask).2.symm
          exact ⟨a, ha, haid.trans hrid⟩
      obtain ⟨a, ha, haid⟩ := hold
      obtain ⟨f, s, hdec, ⟨-, -, hrows⟩ | ⟨hr, -⟩⟩ := resolved_rows hres
      · refine ⟨⟨f a, ?_, (hdec.id a).trans haid, ?_, nofun⟩, ?_⟩
        · rw [hrows]
          exact List.mem_map_of_mem ha
        · rw [hdec.decided a haid]
          exact Option.some_ne_none _
        · intro b hb hbid hs
          refine ⟨b, hb, hbid, ?_, fun _ => hs⟩
          rw [hs]
          exact Option.some_ne_none _
      · cases hr

end Unpublished

/-- A task stays unrouted through any step that flags no attempt a process is done with. -/
theorem Owing.next {done : AttemptId → Prop} (h : Owing l done i)
    (hu : ∀ t, l.store.task? i = some t → Unpublished l t) (hd : l.store.Distinct)
    (hstep : l.step limit env e = some l') (hpub : ∀ attempt, e ≠ .commitOutput i attempt)
    (hdone : ∀ a, done a → ∃ t, l.store.task? i = some t ∧ ReadAs t a true)
    (hroute : ∀ j held attempt, e = .route j → l.due[j]? = some (held, attempt) → held.id = i →
      done attempt) : Owing l' done i := by
  obtain ⟨t, a, ht, ha, hnot⟩ := h
  obtain ⟨hmem, hid⟩ := TaskStore.task?_eq_some ht
  obtain ⟨t', ht', -, hon, -⟩ := (hu t ht).onward hd hstep ht hpub
  obtain ⟨a', ha', hwho⟩ := hon.unrouted (hd.attempts t hmem)
    (fun b hb => Nat.ne_of_lt ((hd.bound t hmem).2 b hb).1) (hu t ht) ha
    (fun j held he hj hheld => hnot (hroute j held a.id he hj (hheld.trans hid)))
  refine ⟨t', a', ht', ha', ?_⟩
  intro hda
  rcases hwho with hsame | hfresh
  · exact hnot (hsame ▸ hda)
  · obtain ⟨u, hu', b, hb, hbid, hdec, -⟩ := hdone _ hda
    obtain rfl := Option.some.inj (ht.symm.trans hu')
    exact hdec (hfresh b hb hbid)

/-- A task just created is found, and has published nothing. -/
theorem unpublished_created (hk : l.Known) (hd : l.store.Distinct) (metadata : QraftTask)
    (cluster : Option String) (env : Env) :
    ∃ t, (l.createAndEnqueue metadata cluster env).store.task? l.store.nextId = some t ∧
      Unpublished (l.createAndEnqueue metadata cluster env) t := by
  have hc := created_enqueued metadata cluster none l.store.nextId env
  have hd' := (step_rows hd (step_asyncTask 0 l metadata cluster env)).1
  have hmem : metadata.enqueued cluster none l.store.nextId env ∈
      (l.createAndEnqueue metadata cluster env).store.tasks := List.mem_append_right _ List.mem_cons_self
  refine ⟨_, hc.id ▸ hd'.task?_of_mem hmem, ?_, ?_, ?_, ?_⟩
  · intro a ha
    rw [List.mem_singleton.mp ha]
  · intro a ha _
    rw [List.mem_singleton.mp ha]
  · intro rd hrd hid
    exact absurd (hid.trans hc.id) (Nat.ne_of_lt (hk.reads rd hrd).1)
  · intro x hx hid
    exact absurd (hid.trans hc.id) (Nat.ne_of_lt (hk.due x hx).1)

/-- Its attempt is still to be routed. -/
theorem owing_created (hd : l.store.Distinct) (metadata : QraftTask) (cluster : Option String) (env : Env)
    {done : AttemptId → Prop} (hdone : ∀ a, done a → a ≤ l.store.nextId) :
    Owing (l.createAndEnqueue metadata cluster env) done l.store.nextId := by
  have hc := created_enqueued metadata cluster none l.store.nextId env
  have hd' := (step_rows hd (step_asyncTask 0 l metadata cluster env)).1
  have hmem : metadata.enqueued cluster none l.store.nextId env ∈
      (l.createAndEnqueue metadata cluster env).store.tasks := List.mem_append_right _ List.mem_cons_self
  refine ⟨_, _, hc.id ▸ hd'.task?_of_mem hmem, ⟨List.mem_cons_self, rfl, fun _ => rfl, ?_⟩, ?_⟩
  · intro hst
    cases hst
  · exact fun h => Nat.not_succ_le_self _ (hdone _ h)

end

end Lifecycle
end Qraft
