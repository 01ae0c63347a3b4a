import Qraft.Lifecycle.Coherence

/-! What the result handler and the reaper leave of a task: how the attempt they resolve is
decided, whether one more follows, and that nothing else of the row moves. -/
namespace Qraft
open AttemptHistory
namespace QraftTask

/-- What an operation may do to a task row: its attempts keep their ids and numbers, one
more may follow under a new id, and only the status moves beside them. -/
structure Extends (newId : AttemptId) (t t' : QraftTask) : Prop where
  frame : t' = { t with status := t'.status, dateUpdated := t'.dateUpdated, attempts := t'.attempts }
  rows : ∃ new, (t'.attempts.map fun a => (a.id, a.attemptNumber)) =
    (t.attempts.map fun a => (a.id, a.attemptNumber)) ++ new ∧ ∀ x ∈ new, x.1 = newId

namespace Extends
variable {newId : AttemptId} {t t' u : QraftTask}

theorem refl (newId : AttemptId) (t : QraftTask) : Extends newId t t := ⟨rfl, [], by simp, by simp⟩

theorem trans (h : Extends newId t u) (h' : Extends newId u t') : Extends newId t t' := by
  obtain ⟨new, hr, hn⟩ := h.rows
  obtain ⟨new', hr', hn'⟩ := h'.rows
  refine ⟨?_, new ++ new', by rw [hr', hr, List.append_assoc], ?_⟩
  · rw [h'.frame, h.frame]
  · intro x hx
    exact (List.mem_append.mp hx).elim (hn x) (hn' x)

theorem updateAttempt (newId : AttemptId) (t : QraftTask) (id : AttemptId)
    {f : QraftTaskAttempt → QraftTaskAttempt} (hid : ∀ a, (f a).id = a.id)
    (hn : ∀ a, (f a).attemptNumber = a.attemptNumber) : Extends newId t (t.updateAttempt id f) := by
  refine ⟨rfl, [], ?_, by simp⟩
  rw [List.append_nil]
  apply Rows.map_updateWhere
  intro a _ _
  rw [hid, hn]

theorem decide (newId : AttemptId) (t : QraftTask) (id : AttemptId) (success : Bool)
    (exc : Option String) (completed : Time) :
    Extends newId t (t.updateAttempt id fun a => a.decide success exc completed) :=
  updateAttempt newId t id (fun _ => rfl) fun _ => rfl

theorem markRouted (newId : AttemptId) (t : QraftTask) (id : AttemptId) :
    Extends newId t (t.markRouted id) := updateAttempt newId t id (fun _ => rfl) fun _ => rfl

theorem setStatus (newId : AttemptId) (t : QraftTask) (s : TaskStatus) (now : Time) :
    Extends newId t (t.setStatus s now) := ⟨rfl, [], by simp, by simp⟩

theorem scheduleAttempt {number : Nat} {notBefore : Time} {cluster : Option String} {now : Time}
    (h : t.scheduleAttempt newId number notBefore cluster now = .ok t') : Extends newId t t' := by
  obtain ⟨_, a, hid, _, _, _, _, _, rfl⟩ := scheduleAttempt_ok h
  exact ⟨rfl, [(a.id, a.attemptNumber)], by simp, by simp [hid]⟩

theorem handleTaskRetry {number : Nat} {exc : Option String} {retryAfter : Option ℚ} {env : Env}
    {scheduled : Bool} (h : t.handleTaskRetry number exc retryAfter newId env = .ok (t', scheduled)) :
    Extends newId t t' := by
  rcases handleTaskRetry_ok h with ⟨_, rfl | rfl⟩ | ⟨_, _, _, _, _, _, h⟩
  · exact refl newId t'
  · exact setStatus newId t .exhausted env.now
  · exact scheduleAttempt h

theorem claimAndEnqueue {id : AttemptId} {cutoff claimedAt : Time} {q2TaskId : Q2TaskId}
    {cluster : String} (h : t.claimAndEnqueue id cutoff claimedAt q2TaskId cluster = some t') :
    Extends newId t t' := by
  obtain ⟨_, rfl⟩ := claimAndEnqueue_eq_some h
  apply (updateAttempt newId t id ?_ ?_).trans (setStatus _ _ _ _)
  · exact fun _ => rfl
  · exact fun _ => rfl

/-- Each attempt is still there. -/
theorem mem (h : Extends newId t t') {a : QraftTaskAttempt} (ha : a ∈ t.attempts) :
    ∃ a' ∈ t'.attempts, a'.id = a.id ∧ a'.attemptNumber = a.attemptNumber := by
  obtain ⟨new, hr, _⟩ := h.rows
  have hm : (a.id, a.attemptNumber) ∈ t'.attempts.map fun a => (a.id, a.attemptNumber) := by
    rw [hr]
    exact List.mem_append_left _ (List.mem_map.mpr ⟨a, ha, rfl⟩)
  obtain ⟨a', ha', he⟩ := List.mem_map.mp hm
  exact ⟨a', ha', congrArg Prod.fst he, congrArg Prod.snd he⟩

/-- An attempt of the row after is an old one or the new one. -/
theorem mem_inv (h : Extends newId t t') {a' : QraftTaskAttempt} (ha' : a' ∈ t'.attempts) :
    a'.id = newId ∨ ∃ a ∈ t.attempts, a.id = a'.id := by
  obtain ⟨new, hr, hn⟩ := h.rows
  have hm : (a'.id, a'.attemptNumber) ∈ t'.attempts.map fun a => (a.id, a.attemptNumber) :=
    List.mem_map.mpr ⟨a', ha', rfl⟩
  rw [hr, List.mem_append] at hm
  rcases hm with hm | hm
  · obtain ⟨a, ha, he⟩ := List.mem_map.mp hm
    exact .inr ⟨a, ha, congrArg Prod.fst he⟩
  · exact .inl (hn _ hm)

theorem length_le (h : Extends newId t t') : t.attempts.length ≤ t'.attempts.length := by
  obtain ⟨new, hr, _⟩ := h.rows
  have hl := congrArg List.length hr
  simp only [List.length_map, List.length_append] at hl
  omega

end Extends
inductive Resolved (t : QraftTask) (id : AttemptId) (number : Nat) (newId : AttemptId) (now : Time) :
    QraftTask → Routing → Prop where
  /-- The task is decided with it. -/
  | decided {t' u : QraftTask} {success : Bool} {exc : Option String} {completed : Time}
      {s : TaskStatus} (hs : s.verdict = some success)
      (hu : u = (t.updateAttempt id fun a => a.decide success exc completed).setStatus s now)
      (ht : t' = u ∨ t' = u.markRouted id) : Resolved t id number newId now t' .due
  /-- The next attempt is scheduled with it. -/
  | retried {u : QraftTask} {exc : Option String} {completed : Time} {policy : RetryPolicy}
      {notBefore : Time} {cluster : Option String} (hp : t.retryPolicy = some policy)
      (hl : (number : Int) < policy.maxAttempts)
      (hu : (t.updateAttempt id fun a => a.decide false exc completed).scheduleAttempt newId
        (number + 1) notBefore cluster now = .ok u) :
      Resolved t id number newId now (u.markRouted id) .absorbed

/-- An attempt is inserted whatever the status was. -/
theorem scheduleAttempt_setStatus (t : QraftTask) (s : TaskStatus) (now₀ : Time) (id : AttemptId)
    (number : Nat) (notBefore : Time) (cluster : Option String) (now : Time) :
    (t.setStatus s now₀).scheduleAttempt id number notBefore cluster now =
      t.scheduleAttempt id number notBefore cluster now := rfl

/-- The result handler drops a result for a decided attempt, and resolves any other. -/
theorem handleResult_ok {t : QraftTask} {id : AttemptId} {result : Q2Task} {cancelled : Bool}
    {newId : AttemptId} {env : Env} {r : QraftTask × Routing}
    (h : t.handleResult id result cancelled newId env = .ok r) :
    (r = (t, .dropped) ∧ ∀ a ∈ t.attempts, a.id = id → a.success ≠ none) ∨
    ∃ a ∈ t.attempts, a.id = id ∧ a.success = none ∧
      Resolved t id a.attemptNumber newId env.now r.1 r.2 := by
  unfold handleResult at h
  split at h
  · rename_i hnone
    cases h
    refine .inl ⟨rfl, fun a ha hid hs => ?_⟩
    simpa [hid, hs] using List.find?_eq_none.mp hnone a ha
  · rename_i a hfind
    have hsel := List.find?_some hfind
    obtain ⟨hid, hs⟩ := of_decide_eq_true hsel
    refine .inr ⟨a, List.mem_of_find?_eq_some hfind, hid, hs, ?_⟩
    cases hr : result.success with
    | true =>
      simp only [hr, true_or, if_true] at h
      cases h
      exact .decided (s := .succeeded) rfl rfl (.inl rfl)
    | false =>
      simp only [hr, Bool.false_eq_true, false_or, if_false] at h
      split at h
      · cases h
        exact .decided (s := .failed) rfl rfl (.inl rfl)
      · obtain ⟨⟨u, scheduled⟩, hu, he⟩ := Transaction.bind_eq_ok.mp h
        rcases handleTaskRetry_ok hu with ⟨rfl, hu'⟩ | ⟨rfl, policy, notBefore, cluster, hp, hl, hu'⟩
        · cases he
          rcases hu' with rfl | rfl
          · exact .decided (s := .failed) rfl rfl (.inl rfl)
          · exact .decided (s := .exhausted) rfl rfl (.inl rfl)
        · cases he
          exact .retried hp hl hu'

/-- A reap that passed its re-checks resolves the attempt of the row it read. -/
theorem reap_ok {t : QraftTask} {row : QraftTaskAttempt} {cancelled : Bool} {newId : AttemptId}
    {env : Env} {r : QraftTask × Routing} (hrun : t.status = .running)
    (h : t.reap row cancelled newId env = .ok r) :
    Resolved t row.id row.attemptNumber newId env.now r.1 r.2 := by
  unfold reap at h
  split at h
  · cases h
    exact .decided (s := .succeeded) rfl rfl (.inr rfl)
  · simp only at h
    split at h
    · cases h
      simp only [updateAttempt_status, hrun, if_true]
      exact .decided (s := .failed) rfl rfl (.inl rfl)
    · obtain ⟨⟨u, scheduled⟩, hu, he⟩ := Transaction.bind_eq_ok.mp h
      rcases handleTaskRetry_ok hu with ⟨rfl, hu'⟩ | ⟨rfl, policy, notBefore, cluster, hp, hl, hu'⟩
      · cases he
        rcases hu' with rfl | rfl
        · simp only [updateAttempt_status, hrun, if_true]
          exact .decided (s := .failed) rfl rfl (.inl rfl)
        · simp only [setStatus_status, reduceCtorEq, if_false]
          exact .decided (s := .exhausted) rfl rfl (.inl rfl)
      · cases he
        exact .retried hp hl hu'

theorem Resolved.extends {t t' : QraftTask} {id : AttemptId} {number : Nat} {newId : AttemptId}
    {now : Time} {routing : Routing} (h : Resolved t id number newId now t' routing) :
    Extends newId t t' := by
  cases h with
  | @decided _ u success exc completed s hs hu ht =>
    have hext : Extends newId t u := by
      rw [hu]
      exact (Extends.decide newId t id success exc completed).trans (Extends.setStatus newId _ s now)
    rcases ht with rfl | rfl
    · exact hext
    · exact hext.trans (Extends.markRouted newId u id)
  | @retried u exc completed policy notBefore cluster hp hl hu =>
    exact ((Extends.decide newId t id false exc completed).trans (Extends.scheduleAttempt hu)).trans
      (Extends.markRouted newId u id)

/-- A write to other columns of one attempt. -/
theorem Coherent.updateAttempt {t : QraftTask} (h : t.Coherent) (id : AttemptId)
    {f : QraftTaskAttempt → QraftTaskAttempt} (hf : ∀ a, SameRow a (f a)) :
    (t.updateAttempt id f).Coherent ∧ (t.updateAttempt id f).history = t.history := by
  refine h.quiet (f := fun a => if decide (a.id = id) = true then f a else a) ?_ rfl rfl
  intro a _
  by_cases hp : a.id = id
  · simpa [hp] using hf a
  · simp [hp, SameRow]

theorem Coherent.markRouted {t : QraftTask} (h : t.Coherent) (id : AttemptId) :
    (t.markRouted id).Coherent ∧ (t.markRouted id).history = t.history :=
  h.updateAttempt id fun _ => ⟨rfl, rfl, rfl, rfl, rfl, rfl⟩

/-- Resolving the undecided attempt keeps the task coherent and is one step of its history. -/
theorem Resolved.coherent {t t' : QraftTask} {a : QraftTaskAttempt} {newId : AttemptId} {now : Time}
    {routing : Routing} (h : Resolved t a.id a.attemptNumber newId now t' routing) (hc : t.Coherent)
    (ha : a ∈ t.attempts) (hn : a.success = none) (hq : a.q2TaskId ≠ none)
    (hid : ∀ b ∈ t.attempts, b.id ≠ newId) :
    t'.Coherent ∧ Step Outcome.Failed t.attemptLimit t.history t'.history := by
  have hnum := (hc.undecided ha hn).2.1
  cases h with
  | @decided _ u success exc completed s hs hu ht =>
    obtain ⟨hrun, hcu, hhist⟩ := hc.decided ha hn hq hs hu
    have hstep : Step Outcome.Failed t.attemptLimit t.history u.history := by
      rw [hhist, show t.history = ⟨t.history.past, .running⟩ by rw [history, hrun]; rfl]
      exact .settle _ _
    rcases ht with rfl | rfl
    · exact ⟨hcu, hstep⟩
    · obtain ⟨hcr, hr⟩ := hcu.markRouted a.id
      exact ⟨hcr, hr ▸ hstep⟩
  | @retried u exc completed policy notBefore cluster hp hl hu =>
    rw [← scheduleAttempt_setStatus _ .failed now] at hu
    have hset : (t.updateAttempt a.id fun b => b.decide false exc completed).setStatus .failed now = _ := rfl
    obtain ⟨hrun, hcd, hhist⟩ := hc.decided ha hn hq rfl hset
    have hlen := (Extends.decide newId t a.id false exc completed).length_le
    have hfresh : ∀ b ∈ ((t.updateAttempt a.id fun b => b.decide false exc completed).setStatus
        .failed now).attempts, b.id ≠ newId := by
      intro b hb
      rw [setStatus_attempts, updateAttempt, Rows.mem_updateWhere] at hb
      obtain ⟨c, hcm, rfl⟩ := hb
      split
      · exact hid c hcm
      · exact hid c hcm
    have hle : a.attemptNumber + 1 ≤ ((t.updateAttempt a.id fun b =>
        b.decide false exc completed).setStatus .failed now).attempts.length + 1 := by
      rw [setStatus_attempts]
      omega
    obtain ⟨-, hcu, hhu⟩ := hcd.scheduled (by simp [TaskStatus.verdict]) hfresh hle
      (Nat.le_add_left _ _) hu
    obtain ⟨hcr, hr⟩ := hcu.markRouted a.id
    refine ⟨hcr, ?_⟩
    have hpast : t.history.past.length + 1 < t.attemptLimit := by
      have hcount := hc.length_eq
      simp only [History.count, history, hrun, TaskStatus.stage, reduceCtorEq, if_false] at hcount
      simp only [attemptLimit, hp, Option.elim, history]
      omega
    rw [hr, hhu, hhist, show t.history = ⟨t.history.past, .running⟩ by rw [history, hrun]; rfl]
    exact .retry _ _ rfl hpast

end QraftTask
end Qraft
