import Qraft.Lifecycle.Runs

/-! Runs without requeues: an attempt is decided once, its successor comes with its
failure, and the retry policy bounds how many there are. -/
namespace Qraft
open AttemptHistory QraftTask

namespace Lifecycle

def resolvesOnce (l : Lifecycle) : LifecycleEvent → Bool
  | .requeueCommit _ => false
  | .reap i => l.reapInOrder i
  | _ => true

/-- No requeue, and no reap of an attempt that was decided after the reaper read it. -/
def ResolvesOnce (l : Lifecycle) (e : LifecycleEvent × Env) : Prop := l.resolvesOnce e.1 = true

instance (l : Lifecycle) (e : LifecycleEvent × Env) : Decidable (l.ResolvesOnce e) :=
  inferInstanceAs (Decidable (_ = true))

theorem ResolvesOnce.inOrder {l : Lifecycle} {e : LifecycleEvent × Env} (h : l.ResolvesOnce e) :
    l.InOrder e := by
  obtain ⟨e, env⟩ := e
  cases e with
  | requeueCommit i => cases h
  | reap i => exact h
  | _ => rfl

theorem ResolvesOnce.not_requeue {l : Lifecycle} {e : LifecycleEvent × Env} (h : l.ResolvesOnce e) :
    e.1.isRequeue = false := by
  obtain ⟨e, env⟩ := e
  cases e with
  | requeueCommit i => cases h
  | _ => rfl

/-- The attempt on whose account an event reports an outcome, reaps or routes. -/
def concerns (l : Lifecycle) : LifecycleEvent → Option (TaskId × AttemptId)
  | .handleResult i =>
    l.results[i]?.bind fun r => (l.store.resolveAttempt r.id).map fun (t, a) => (t.id, a.id)
  | .reap i => l.reads[i]?.map fun rd => (rd.task, rd.row.id)
  | .route i => l.due[i]?.map fun (t, attempt) => (t.id, attempt)
  | _ => none

section
variable {limit : Nat} {l l' : Lifecycle} {e : LifecycleEvent × Env}

theorem reach_resolvesOnce_sound (h : (lifecycleSystem limit).ReachWhen ResolvesOnce l) : l.Sound :=
  reach_sound (h.mono fun _ _ he => he.inOrder)

/-- What a step without a requeue makes of each task. -/
theorem Sound.next_step (h : l.Sound) (hok : l.ResolvesOnce e)
    (hstep : (lifecycleSystem limit).step l e = some l') {t : QraftTask} (ht : t ∈ l.store.tasks) :
    ∃ t' ∈ l'.store.tasks, Extends l.store.nextId t t' ∧ t'.Coherent ∧
      Step Outcome.Failed t.attemptLimit t.history t'.history := by
  have hs := ((step_effect hstep).evolves h hok.inOrder).2
  rw [hok.not_requeue] at hs
  obtain ⟨t', ht', hn⟩ := hs.kept t ht
  refine ⟨t', ht', hn.extension, hn.coherent, ?_⟩
  cases hn.move with
  | step h => exact h
  | reopen hr _ _ => cases hr

/-- The step's rows, found by id. -/
theorem Sound.next_unique (h : l.Sound) (hok : l.ResolvesOnce e)
    (hstep : (lifecycleSystem limit).step l e = some l') {t t' : QraftTask} (ht : t ∈ l.store.tasks)
    (ht' : t' ∈ l'.store.tasks) (hid : t'.id = t.id) :
    Extends l.store.nextId t t' ∧ t'.Coherent ∧
      Step Outcome.Failed t.attemptLimit t.history t'.history := by
  obtain ⟨u, hu, hrest⟩ := h.next_step hok hstep ht
  have hl' := h.next hok.inOrder hstep
  rwa [hl'.keyed.eq_of_id ht' hu (hid.trans hrest.1.id_eq.symm)]

/-- What a decided attempt was decided to be, it stays. -/
private theorem outcome_kept {t t' : QraftTask} {newId : AttemptId} (hc : t.Coherent)
    (hc' : t'.Coherent) (hext : Extends newId t t')
    (hs : Step Outcome.Failed t.attemptLimit t.history t'.history) {a : QraftTaskAttempt}
    (ha : a ∈ t.attempts) (hd : a.success ≠ none) :
    ∃ a' ∈ t'.attempts, a'.id = a.id ∧ a'.attemptNumber = a.attemptNumber ∧
      a'.success = a.success ∧ a'.exceptionClass = a.exceptionClass := by
  obtain ⟨a', ha', hid, hnum⟩ := hext.mem ha
  have hold := hc.outcome_eq ha
  have hnew := hc'.outcome_eq ha'
  obtain ⟨o, ho⟩ := Option.ne_none_iff_exists'.mp (mt outcome_eq_none.mp hd)
  rw [hnum, hs.past_getElem? (hold.trans ho)] at hnew
  obtain ⟨hsu, hex⟩ := outcome_eq_some ho
  obtain ⟨hsu', hex'⟩ := outcome_eq_some hnew.symm
  exact ⟨a', ha', hid, hnum, hsu'.trans hsu.symm, hex'.trans hex.symm⟩

/-- A further attempt follows the undecided one, which fails in the same step. -/
private theorem successor {t t' : QraftTask} {newId : AttemptId} (hc : t.Coherent)
    (hc' : t'.Coherent) (hext : Extends newId t t')
    (hs : Step Outcome.Failed t.attemptLimit t.history t'.history) {b : QraftTaskAttempt}
    (hb : b ∈ t'.attempts) (hnew : ∀ a ∈ t.attempts, a.attemptNumber ≠ b.attemptNumber) :
    ∃ a ∈ t.attempts, a.success = none ∧ b.attemptNumber = a.attemptNumber + 1 ∧
      ∃ a' ∈ t'.attempts, a'.id = a.id ∧ a'.attemptNumber = a.attemptNumber ∧
        a'.success = some false := by
  have hlen := hc.length_eq
  have hlen' := hc'.length_eq
  have hbn := hc'.number_bounds hb
  have hgrow : t.attempts.length < b.attemptNumber := by
    by_contra hle
    have hlt : b.attemptNumber - 1 < t.attempts.length := by omega
    have hnum := hc.number_of_getElem? (List.getElem?_eq_getElem hlt)
    exact hnew _ (List.getElem_mem hlt) (by omega)
  obtain ⟨o, hf, hrun, hwait, hpast⟩ := hs.grows (by omega)
  obtain ⟨done, a, hl, hd, hv, -⟩ := hc.latest
  have ha : a ∈ t.attempts := by simp [hl]
  have hn : a.success = none := by
    rw [hv]
    by_contra hne
    have hset : t.history.stage = .settled := TaskStatus.stage_settled_iff.mpr hne
    rw [hrun] at hset
    cases hset
  have hnum := (hc.undecided ha hn).2.1
  simp only [History.count, hrun, hwait, hpast, List.length_append, List.length_singleton,
    reduceCtorEq, if_false] at hlen hlen'
  obtain ⟨a', ha', hid, hnum'⟩ := hext.mem ha
  refine ⟨a, ha, hn, by omega, a', ha', hid, hnum', ?_⟩
  have hout := hc'.outcome_eq ha'
  have hlast : a'.attemptNumber - 1 = t.history.past.length := by omega
  rw [hlast, hpast, List.getElem?_concat_length] at hout
  rw [(outcome_eq_some hout.symm).1, hf]

/-- Writing a row back unchanged leaves the table as it was. -/
private theorem save_self {st : TaskStore} {t u : QraftTask} (ht : t ∈ st.tasks)
    (hu : u ∈ (st.save t).fresh.tasks) : u ∈ st.tasks := by
  obtain ⟨v, hv, rfl⟩ := Rows.mem_updateWhere.mp hu
  split
  · exact ht
  · exact hv

/-- An event on account of a decided attempt decides nothing. -/
private theorem settled_undisturbed (h : l.Sound) (hok : l.ResolvesOnce e)
    (hstep : (lifecycleSystem limit).step l e = some l') {t t' : QraftTask}
    (ht : t ∈ l.store.tasks) (ht' : t' ∈ l'.store.tasks) (hid : t'.id = t.id)
    {a : QraftTaskAttempt} (ha : a ∈ t.attempts) (hd : a.success ≠ none)
    (hcon : l.concerns e.1 = some (t.id, a.id)) :
    t'.status = t.status ∧ t'.history = t.history := by
  have same (hmem : t' ∈ l.store.tasks) : t'.status = t.status ∧ t'.history = t.history := by
    rw [h.keyed.eq_of_id hmem ht hid]
    exact ⟨rfl, rfl⟩
  obtain ⟨e, env⟩ := e
  simp only [lifecycleSystem] at hstep
  cases e with
  | handleResult i =>
    simp only [concerns] at hcon
    simp only [step] at hstep
    obtain ⟨result, hres, hstep⟩ := Option.bind_eq_some_iff.mp hstep
    rw [hres, Option.bind_some] at hcon
    obtain ⟨⟨u, b⟩, hfind, he⟩ := Option.map_eq_some_iff.mp hcon
    obtain ⟨hu, hb, hq⟩ := TaskStore.resolveAttempt_eq_some hfind
    obtain rfl : u = t := h.keyed.eq_of_id hu ht (congrArg Prod.fst he)
    obtain rfl : b = a := (h.coherent u ht).eq_of_id hb ha (congrArg Prod.snd he)
    simp only [hfind] at hstep
    obtain ⟨r, hr, rfl⟩ := Option.map_eq_some_iff.mp hstep
    rcases handleResult_ok (Transaction.toOption_eq_some.mp hr) with ⟨rfl, _⟩ | ⟨c, hc, hcid, hcn, _⟩
    · exact same (save_self ht ht')
    · rw [(h.coherent u ht).eq_of_id hc ha hcid] at hcn
      exact absurd hcn hd
  | reap i =>
    simp only [concerns] at hcon
    simp only [step] at hstep
    obtain ⟨rd, hrd, hstep⟩ := Option.bind_eq_some_iff.mp hstep
    rw [hrd, Option.map_some] at hcon
    have hcon := Option.some.inj hcon
    obtain ⟨u, hu, hstep⟩ := Option.bind_eq_some_iff.mp hstep
    obtain ⟨hum, huid⟩ := TaskStore.task?_eq_some hu
    obtain rfl : u = t := h.keyed.eq_of_id hum ht (huid.trans (congrArg Prod.fst hcon))
    have hord : l.reapInOrder i = true := hok
    split at hstep
    · rename_i hpass
      have hpass : u.reapable rd.row rd.heartbeatCutoff (l.q2Row rd.row) = true := hpass
      simp only [reapInOrder, hrd, hu, Option.bind_some, Option.map_some, Option.all_some, hpass,
        Bool.not_true, Bool.false_or, List.all_eq_true] at hord
      have haid : a.id = rd.row.id := (congrArg Prod.snd hcon).symm
      have hn : a.success = none := by simpa [haid] using hord a ha
      exact absurd hn hd
    · cases hstep
      exact same ht'
  | route i =>
    simp only [concerns] at hcon
    simp only [step] at hstep
    obtain ⟨⟨held, attempt⟩, hdue, hstep⟩ := Option.bind_eq_some_iff.mp hstep
    rw [hdue, Option.map_some] at hcon
    have hcon := Option.some.inj hcon
    obtain ⟨u, hu, rfl⟩ := Option.map_eq_some_iff.mp hstep
    obtain ⟨hum, huid⟩ := TaskStore.task?_eq_some hu
    obtain rfl : u = t := h.keyed.eq_of_id hum ht (huid.trans (congrArg Prod.fst hcon))
    obtain ⟨v, hv, rfl⟩ := Rows.mem_updateWhere.mp ht'
    split
    · exact ⟨rfl, ((h.coherent u ht).markRouted attempt).2⟩
    · rename_i hne
      rw [if_neg hne] at hid
      exact absurd (decide_eq_true hid) hne
  | _ => cases hcon

/-- The policy of a task bounds its attempts. -/
private theorem attempts_bounded (h : (lifecycleSystem limit).ReachWhen ResolvesOnce l) :
    ∀ t ∈ l.store.tasks, t.history.count ≤ t.attemptLimit := by
  have hlim (t : QraftTask) : 1 ≤ t.attemptLimit := by
    rw [attemptLimit]
    cases t.retryPolicy with
    | none => exact Nat.le_refl _
    | some p =>
      have := p.maxAttempts_range
      simp only [Option.elim]
      omega
  apply h.invariant_of Sound (fun l => ∀ t ∈ l.store.tasks, t.history.count ≤ t.attemptLimit)
  · exact fun l hl => reach_resolvesOnce_sound hl
  · rintro l rfl t ht
    exact absurd ht List.not_mem_nil
  · intro l e l' hl hb hok hstep t' ht'
    rcases ((step_effect hstep).evolves hl hok.inOrder).2.origin t' ht' with ⟨t, ht, hn⟩ | hc
    · obtain ⟨hext, -, hs⟩ := hl.next_unique hok hstep ht ht' hn.extension.id_eq
      have hsame : t'.attemptLimit = t.attemptLimit := by rw [hext.frame, attemptLimit, attemptLimit]
      rw [hsame]
      exact hs.count_le (hb t ht)
    · rw [← hc.coherent.length_eq, hc.single]
      exact hlim t'

/-- However the run goes on, what a decided attempt was decided to be, it stays. -/
private theorem outcome_kept_path (h : (lifecycleSystem limit).ReachWhen ResolvesOnce l)
    (hp : (lifecycleSystem limit).Path ResolvesOnce l l') {t : QraftTask} (ht : t ∈ l.store.tasks)
    {a : QraftTaskAttempt} (ha : a ∈ t.attempts) (hd : a.success ≠ none) :
    ∃ t' ∈ l'.store.tasks, t'.id = t.id ∧ ∃ a' ∈ t'.attempts, a'.id = a.id ∧
      a'.attemptNumber = a.attemptNumber ∧ a'.success = a.success ∧
      a'.exceptionClass = a.exceptionClass := by
  induction hp with
  | refl => exact ⟨t, ht, rfl, a, ha, rfl, rfl, rfl, rfl⟩
  | step hpath hok hs ih =>
    obtain ⟨u, hu, huid, b, hb, hbid, hbnum, hbs, hbe⟩ := ih
    have hsound := reach_resolvesOnce_sound (h.path hpath)
    obtain ⟨v, hv, hext, hcv, hmove⟩ := hsound.next_step hok hs hu
    obtain ⟨c, hc, hcid, hcnum, hcs, hce⟩ :=
      outcome_kept (hsound.coherent u hu) hcv hext hmove hb (by rw [hbs]; exact hd)
    exact ⟨v, hv, hext.id_eq.trans huid, c, hc, hcid.trans hbid, hcnum.trans hbnum, hcs.trans hbs,
      hce.trans hbe⟩

/-- Without requeues, and as long as no reap acts on an attempt decided since it was read:
a decided attempt keeps its outcome however the run goes on, and no event on its account
decides anything; an attempt has at most one successor, created in the step that fails
it; and a task makes no more attempts than its policy allows. -/
theorem resolved_once (h : (lifecycleSystem limit).ReachWhen ResolvesOnce l) {t : QraftTask}
    (ht : t ∈ l.store.tasks) :
    (∀ l', (lifecycleSystem limit).Path ResolvesOnce l l' →
      ∀ a ∈ t.attempts, a.success ≠ none → ∃ t' ∈ l'.store.tasks, t'.id = t.id ∧
        ∃ a' ∈ t'.attempts, a'.id = a.id ∧ a'.attemptNumber = a.attemptNumber ∧
          a'.success = a.success ∧ a'.exceptionClass = a.exceptionClass) ∧
    (∀ e l', l.ResolvesOnce e → (lifecycleSystem limit).step l e = some l' →
      ∃ t' ∈ l'.store.tasks, t'.id = t.id ∧
        (∀ a ∈ t.attempts, a.success ≠ none → l.concerns e.1 = some (t.id, a.id) →
          t'.status = t.status ∧ t'.history = t.history) ∧
        ∀ b ∈ t'.attempts, (∀ a ∈ t.attempts, a.attemptNumber ≠ b.attemptNumber) →
          ∃ a ∈ t.attempts, a.success = none ∧ b.attemptNumber = a.attemptNumber + 1 ∧
            ∃ a' ∈ t'.attempts, a'.id = a.id ∧ a'.attemptNumber = a.attemptNumber ∧
              a'.success = some false) ∧
    (t.attempts.map fun a => a.attemptNumber).Nodup ∧
    (∀ policy, t.retryPolicy = some policy → (t.attempts.length : Int) ≤ policy.maxAttempts) ∧
    (t.retryPolicy = none → t.attempts.length = 1) := by
  have hl := reach_resolvesOnce_sound h
  have hc := hl.coherent t ht
  have hbound : t.attempts.length ≤ t.attemptLimit := hc.length_eq ▸ attempts_bounded h t ht
  refine ⟨?_, ?_, ?_, ?_, ?_⟩
  · intro l' hp a ha hd
    exact outcome_kept_path h hp ht ha hd
  · intro e l' hok hstep
    obtain ⟨t', ht', hext, hc', hs⟩ := hl.next_step hok hstep ht
    refine ⟨t', ht', hext.id_eq, ?_, ?_⟩
    · intro a ha hd hcon
      exact settled_undisturbed hl hok hstep ht ht' hext.id_eq ha hd hcon
    · intro b hb hnew
      exact successor hc hc' hext hs hb hnew
  · rw [hc.numbered]
    exact List.nodup_range'
  · intro policy hp
    have hrange := policy.maxAttempts_range
    simp only [attemptLimit, hp, Option.elim] at hbound
    omega
  · intro hp
    have hpos := List.length_pos_iff.mpr hc.ne_nil
    simp only [attemptLimit, hp, Option.elim] at hbound
    omega

end

/-- Two attempts, and none after a worker that died midway. -/
def lostResultsOnly : RetryPolicy where
  maxAttempts := 2
  baseDelay := 0
  backoffStrategy := .fixed
  jitter := false
  jitterMax := 0
  retryExceptions := []
  skipExceptions := ["OrphanedTask"]
  rateLimitExceptions := []
  rateLimitMaxDelay := 300
  maxAttempts_range := by decide
  jitterMax_range := by decide
  baseDelay_nonneg := by decide
  rateLimitMaxDelay_pos := by decide

/-- Two reapers read the first attempt, one before and one after its worker returns. The
second reaps it, and its retry is dispatched. -/
def reapedBetween : List (LifecycleEvent × Env) := [
  atTime 0 (.asyncTask { work with retryPolicy := some lostResultsOnly } none none),
  atTime 1 (.lease 2 .start),
  atTime 100 (.selectStale 0 1 10),
  atTime 100 (.selectStale 0 1 10),
  atTime 101 (.readOrphan 0),
  atTime 102 (.lease 2 .returned),
  atTime 103 (.readOrphan 0),
  atTime 104 (.reap 1),
  atTime 105 (.claimAndEnqueue 0 3 105)]

theorem resolved_once_reaped : ∃ l, (lifecycleSystem 1).ReachWhen ResolvesOnce l ∧
    ∃ t ∈ l.store.tasks, t.attempts.length = 2 ∧
      ∀ policy, t.retryPolicy = some policy → (t.attempts.length : Int) ≤ policy.maxAttempts := by
  obtain ⟨l, hr, hp⟩ := StepSystem.exists_reach_of_run
    ((lifecycleSystem 1).guard ResolvesOnce) reapedBetween (.init rfl)
    (fun l => l.store.tasks.any fun t => t.attempts.length = 2) (by decide)
  obtain ⟨t, ht, hlen⟩ := List.any_eq_true.mp hp
  have hreach := StepSystem.reachWhen_of_guard hr
  exact ⟨l, hreach, t, ht, of_decide_eq_true hlen, (resolved_once hreach ht).2.2.2.1⟩

/-- Neither a requeue nor the trimming of a saved result. -/
def plain (e : LifecycleEvent × Env) : Bool :=
  match e.1 with
  | .requeueCommit _ | .trim _ => false
  | _ => true

theorem decided_attempt_overwritten : ∃ l l',
    (lifecycleSystem 1).ReachWhen (fun _ e => plain e = true) l ∧
    (lifecycleSystem 1).Path (fun _ e => plain e = true) l l' ∧
    ∃ t ∈ l.store.tasks, ∃ t' ∈ l'.store.tasks, t'.id = t.id ∧
      ∃ a ∈ t.attempts, ∃ a' ∈ t'.attempts, a'.id = a.id ∧ a.success = some false ∧
        a.exceptionClass = some "ResultLost" ∧ a'.exceptionClass = some "OrphanedTask" ∧
        t.status = .running ∧ t'.status = .exhausted := by
  obtain ⟨l, hr, hp⟩ := StepSystem.exists_reach_of_run
    ((lifecycleSystem 1).guard fun _ e => plain e = true) reapedBetween (.init rfl)
    (fun l => ((lifecycleSystem 1).step l (atTime 106 (.reap 0))).any fun l' =>
      l.store.tasks.any fun t => l'.store.tasks.any fun t' => t.attempts.any fun a =>
        t'.attempts.any fun a' => t'.id = t.id ∧ a'.id = a.id ∧ a.success = some false ∧
          a.exceptionClass = some "ResultLost" ∧ a'.exceptionClass = some "OrphanedTask" ∧
          t.status = .running ∧ t'.status = .exhausted) (by decide)
  obtain ⟨l', hstep, hp⟩ := (Option.any_eq_true _ _).mp hp
  obtain ⟨t, ht, hp⟩ := List.any_eq_true.mp hp
  obtain ⟨t', ht', hp⟩ := List.any_eq_true.mp hp
  obtain ⟨a, ha, hp⟩ := List.any_eq_true.mp hp
  obtain ⟨a', ha', hp⟩ := List.any_eq_true.mp hp
  obtain ⟨hid, hrest⟩ := of_decide_eq_true hp
  exact ⟨l, l', StepSystem.reachWhen_of_guard hr, .step .refl rfl hstep, t, ht, t', ht', hid, a, ha,
    a', ha', hrest⟩

end Lifecycle
end Qraft
