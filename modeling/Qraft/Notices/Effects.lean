import Qraft.Lifecycle.Unrouted
import Qraft.Notices.System

/-! What a step makes of each attempt, and what it announces of it. -/
namespace Qraft
open QraftTask

namespace QraftTask
variable {t t' : QraftTask} {id newId : AttemptId} {env : Env} {cancelled : Bool} {routing : Routing}

/-- A result decides its attempt as it says, for good or with a retry to follow. -/
theorem handleResult_says {r : Q2Task} (h : t.handleResult id r cancelled newId env = .ok (t', routing)) :
    (routing = .due → t'.status.verdict = some r.success) ∧ (routing = .absorbed → r.success = false) := by
  unfold handleResult at h
  split at h
  · cases h
    exact ⟨fun he => (by cases he), fun he => (by cases he)⟩
  · simp only at h
    cases hs : r.success with
    | true =>
      rw [if_pos (.inl hs)] at h
      cases h
      rw [hs]
      exact ⟨fun _ => rfl, fun he => (by cases he)⟩
    | false =>
      cases cancelled with
      | true =>
        rw [if_pos (.inr rfl)] at h
        cases h
        rw [hs]
        exact ⟨fun _ => rfl, fun he => (by cases he)⟩
      | false =>
        simp only [hs, Bool.false_eq_true, or_self, if_false] at h
        obtain ⟨⟨u, scheduled⟩, hu, he⟩ := Transaction.bind_eq_ok.mp h
        rcases handleTaskRetry_ok hu with ⟨rfl, rfl | rfl⟩ | ⟨rfl, -⟩
        · cases he
          exact ⟨fun _ => rfl, fun he => (by cases he)⟩
        · cases he
          exact ⟨fun _ => rfl, fun he => (by cases he)⟩
        · cases he
          exact ⟨fun he => (by cases he), fun _ => rfl⟩

end QraftTask

namespace Lifecycle

/-- The columns of a task that say which hooks it has. -/
def SameHooks (t t' : QraftTask) : Prop := t'.id = t.id ∧ ∀ success, t'.hooked success = t.hooked success

/-- What a step makes of an attempt, with what it announces. -/
inductive Fate (l : Lifecycle) (e : LifecycleEvent) (ann : Option Announcement) (t' : QraftTask)
    (a' : QraftTaskAttempt) : Prop where
  | kept {t : QraftTask} {a : QraftTaskAttempt} (ht : t ∈ l.store.tasks) (hid : SameHooks t t')
      (ha : a ∈ t.attempts) (hi : a'.id = a.id) (hn : a'.attemptNumber = a.attemptNumber)
      (hs : a'.success = a.success) (hlen : t.attempts.length ≤ t'.attempts.length)
      (hr : a'.routed = a.routed ∨
        ∃ i held, e = .route i ∧ l.due[i]? = some (held, a.id) ∧ held.id = t.id)
      (hann : ∀ n, ann = some n → n.attempt ≠ a.id)
  | decided {t : QraftTask} {a : QraftTaskAttempt} {n : Announcement} (ht : t ∈ l.store.tasks)
      (hid : SameHooks t t') (ha : a ∈ t.attempts) (hi : a'.id = a.id)
      (hn : a'.attemptNumber = a.attemptNumber) (hnone : a.success = none) (hann : ann = some n)
      (htask : n.task = t.id) (hattempt : n.attempt = a.id)
      (hs : a'.success = some n.outcome.success)
      (hset : n.settled = true → a'.routed = a.routed ∧ t'.attempts.length = t.attempts.length)
      (hretry : n.settled = false → t'.attempts.length = t.attempts.length + 1)
  | added (hi : l.store.nextId ≤ a'.id) (hs : a'.success = none) (hr : a'.routed = false)

section
variable {limit : Nat} {l l' : Lifecycle} {env : Env} {e : LifecycleEvent} {t t' : QraftTask}

theorem SameHooks.refl (t : QraftTask) : SameHooks t t := ⟨rfl, fun _ => rfl⟩

theorem sameHooks_of_frame
    (h : t' = { t with status := t'.status, dateUpdated := t'.dateUpdated, attempts := t'.attempts }) :
    SameHooks t t' := by
  rw [h]
  exact ⟨rfl, fun _ => rfl⟩

theorem TaskEffect.sameHooks (h : TaskEffect limit l env e t t') : SameHooks t t' :=
  sameHooks_of_frame h.frame

/-- A row that the step leaves as it is. -/
private theorem fate_same {ann : Option Announcement} (ht : t ∈ l.store.tasks)
    (hann : ∀ n, ann = some n → ∀ a ∈ t.attempts, n.attempt ≠ a.id) {a : QraftTaskAttempt}
    (ha : a ∈ t.attempts) : Fate l e ann t a :=
  .kept ht (.refl t) ha rfl rfl rfl (Nat.le_refl _) (.inl rfl) fun n hn => hann n hn a ha

/-- The row of the task that a step resolves. -/
private theorem fate_resolved {n : Announcement} {a : QraftTaskAttempt} {routing : Routing}
    (ht : t ∈ l.store.tasks) (hids : (t.attempts.map fun a => a.id).Nodup)
    (hfresh : a.id ≠ l.store.nextId) (ha : a ∈ t.attempts) (hnone : a.success = none)
    (hres : Resolved t a.id a.attemptNumber l.store.nextId env.now t' routing)
    (htask : n.task = t.id) (hattempt : n.attempt = a.id) (hset : n.settled = decide (routing = .due))
    (hout : routing = .due → t'.status.verdict = some n.outcome.success)
    (hfail : routing = .absorbed → n.outcome.success = false)
    (hflag : routing = .due → (t'.attempts.map fun a => a.routed) = t.attempts.map fun a => a.routed)
    {a' : QraftTaskAttempt} (ha' : a' ∈ t'.attempts) : Fate l e (some n) t' a' := by
  have hhooks := sameHooks_of_frame hres.extends.frame
  obtain ⟨f, success, hd, ⟨hdue, hv, hrows⟩ | ⟨habs, hsu, -, -, b, hrows, hb, -, hbs, -, hbr⟩⟩ := resolved_rows hres
  · have hsuccess : n.outcome.success = success := Option.some.inj ((hout hdue).symm.trans hv)
    have hlen : t'.attempts.length = t.attempts.length := by
      rw [hrows, List.length_map]
    have hsettled : n.settled = true := by
      rw [hset, hdue]
      rfl
    have hmap := hflag hdue
    rw [hrows, List.map_map] at hmap
    have hrouted := List.map_inj_left.mp hmap
    rw [hrows] at ha'
    obtain ⟨c, hc, rfl⟩ := List.mem_map.mp ha'
    by_cases hid : c.id = a.id
    · obtain rfl := Rows.eq_of_key_eq hids hc ha hid
      refine .decided ht hhooks ha (hd.id c) (hd.number c) hnone rfl htask hattempt ?_ ?_ ?_
      · rw [hsuccess]
        exact hd.decided c rfl
      · exact fun _ => ⟨hrouted c hc, hlen⟩
      · intro hno
        rw [hsettled] at hno
        cases hno
    · rw [hd.same c hid]
      refine .kept ht hhooks hc rfl rfl rfl (Nat.le_of_eq hlen.symm) (.inl rfl) ?_
      intro m hm he
      obtain rfl := Option.some.inj hm
      exact hid (he.symm.trans hattempt)
  · have hlen : t'.attempts.length = t.attempts.length + 1 := by
      rw [hrows, List.length_append, List.length_map, List.length_singleton]
    have hsettled : n.settled = false := by
      rw [hset, habs]
      rfl
    rw [hrows] at ha'
    rcases List.mem_append.mp ha' with ha' | ha'
    · obtain ⟨c, hc, rfl⟩ := List.mem_map.mp ha'
      by_cases hid : c.id = a.id
      · obtain rfl := Rows.eq_of_key_eq hids hc ha hid
        refine .decided ht hhooks ha (hd.id c) (hd.number c) hnone rfl htask hattempt ?_ ?_ ?_
        · rw [hfail habs, ← hsu]
          exact hd.decided c rfl
        · intro hyes
          rw [hsettled] at hyes
          cases hyes
        · exact fun _ => hlen
      · rw [hd.same c hid]
        refine .kept ht hhooks hc rfl rfl rfl ?_ (.inl rfl) ?_
        · rw [hlen]
          exact Nat.le_succ _
        · intro m hm he
          obtain rfl := Option.some.inj hm
          exact hid (he.symm.trans hattempt)
    · rw [List.mem_singleton.mp ha']
      exact .added (Nat.le_of_eq hb.symm) hbs (hbr hfresh.symm)

/-- A row a resolution writes back, among the others. -/
private theorem fate_saved {n : Announcement} {u u' : QraftTask} {a : QraftTaskAttempt} {routing : Routing}
    (hd : l.store.Distinct) (hu : u ∈ l.store.tasks) (ha : a ∈ u.attempts) (hnone : a.success = none)
    (hres : Resolved u a.id a.attemptNumber l.store.nextId env.now u' routing)
    (htask : n.task = u.id) (hattempt : n.attempt = a.id) (hset : n.settled = decide (routing = .due))
    (hout : routing = .due → u'.status.verdict = some n.outcome.success)
    (hfail : routing = .absorbed → n.outcome.success = false)
    (hflag : routing = .due → (u'.attempts.map fun a => a.routed) = u.attempts.map fun a => a.routed)
    (ht' : t' ∈ (l.store.save u').fresh.tasks) {a' : QraftTaskAttempt} (ha' : a' ∈ t'.attempts) :
    Fate l e (some n) t' a' := by
  have hid : u'.id = u.id := hres.extends.id_eq
  rcases (TaskStore.mem_save hd.tasks hu hid t').mp ht' with ⟨hold, hne⟩ | rfl
  · apply fate_same hold _ ha'
    intro m hm b hb he
    obtain rfl := Option.some.inj hm
    exact hne (hd.owner t' hold b hb u hu a ha (he.symm.trans hattempt))
  · exact fate_resolved hu (hd.attempts u hu) (Nat.ne_of_lt ((hd.bound u hu).2 a ha).1) ha hnone hres
      htask hattempt hset hout hfail hflag ha'

/-- A write to other columns of some attempts. -/
private theorem fate_write {p : QraftTaskAttempt → Bool} {f : QraftTaskAttempt → QraftTaskAttempt}
    (ht : t ∈ l.store.tasks) (hhooks : SameHooks t t') (hrows : t'.attempts = Rows.updateWhere p f t.attempts)
    (hf : ∀ a, SameRoute a (f a)) {a' : QraftTaskAttempt} (ha' : a' ∈ t'.attempts) : Fate l e none t' a' := by
  have hlen : t'.attempts.length = t.attempts.length := by
    rw [hrows]
    exact List.length_map _
  rw [hrows] at ha'
  obtain ⟨a, ha, rfl⟩ := Rows.mem_updateWhere.mp ha'
  obtain ⟨hi, hn, hs, hr⟩ := sameRoute_ite (p := p) hf a
  exact .kept ht hhooks ha hi hn hs (Nat.le_of_eq hlen.symm) (.inl hr) fun n hann => by cases hann

/-- A step that resolves nothing. -/
private theorem fate_turn (hd : l.store.Distinct) (hstep : l.step limit env e = some l')
    (hquiet : ∀ i, e ≠ .handleResult i ∧ e ≠ .reap i) (ht' : t' ∈ l'.store.tasks)
    {a' : QraftTaskAttempt} (ha' : a' ∈ t'.attempts) : Fate l e none t' a' := by
  have silent {b : QraftTaskAttempt} : ∀ n : Announcement, none = some n → n.attempt ≠ b.id :=
    fun n hn => by cases hn
  have scheduled {u : QraftTask} {id : AttemptId} {number : Nat} {notBefore : Time} {cluster : Option String}
      (hid : l.store.nextId ≤ id) (hok : u.scheduleAttempt id number notBefore cluster env.now = .ok t')
      (hnew : a' ∉ u.attempts) : Fate l e none t' a' := by
    rw [(scheduleAttempt_attempts hok).2] at ha'
    rcases List.mem_append.mp ha' with ha' | ha'
    · exact absurd ha' hnew
    · rw [List.mem_singleton.mp ha']
      exact .added hid rfl rfl
  rcases step_origin hd hstep ht' with
    ⟨t, ht, heff⟩ | ⟨metadata, cluster, trace, -, rfl⟩ | ⟨metadata, cluster, -, hok⟩
  · have hmem := (TaskStore.task?_eq_some ht).1
    have hhooks := heff.sameHooks
    cases heff with
    | same => exact fate_same hmem (fun n hn => by cases hn) ha'
    | @leased q w =>
      refine fate_write (f := w.write env.now) hmem hhooks rfl ?_ ha'
      intro a
      cases w <;> exact ⟨rfl, rfl, rfl, rfl⟩
    | @rearmed cutoff =>
      refine fate_write (f := fun a => { a with state := .scheduled, claimedAt := none }) hmem hhooks rfl ?_ ha'
      exact fun a => ⟨rfl, rfl, rfl, rfl⟩
    | moved hm =>
      cases hm with
      | claimed hok =>
        obtain ⟨-, rfl⟩ := claimAndEnqueue_eq_some hok
        refine fate_write (f := fun a => a.enqueue env.now l.store.nextId env.executingCluster) hmem hhooks
          rfl ?_ ha'
        exact fun a => ⟨rfl, rfl, rfl, rfl⟩
      | published =>
        refine fate_write (f := fun a => { a with outputCommittedAt := some env.now }) hmem hhooks rfl ?_ ha'
        exact fun a => ⟨rfl, rfl, rfl, rfl⟩
      | @routed i held attempt _ hdue hid =>
        obtain ⟨a, ha, rfl⟩ := Rows.mem_updateWhere.mp ha'
        have hlen : (t.markRouted attempt).attempts.length = t.attempts.length := List.length_map _
        by_cases he : a.id = attempt
        · rw [if_pos (decide_eq_true he)]
          subst he
          exact .kept hmem hhooks ha rfl rfl rfl (Nat.le_of_eq hlen.symm)
            (.inr ⟨i, held, rfl, hdue, hid⟩) silent
        · rw [if_neg fun h => he (of_decide_eq_true h)]
          exact .kept hmem hhooks ha rfl rfl rfl (Nat.le_of_eq hlen.symm) (.inl rfl) silent
      | @result i => exact absurd rfl (hquiet i).1
      | @reaped i => exact absurd rfl (hquiet i).2
      | requeued hr hrt hok =>
        by_cases hold : a' ∈ t.attempts
        · have hlen := (Extends.scheduleAttempt hok).length_le
          exact .kept hmem hhooks hold rfl rfl rfl hlen (.inl rfl) silent
        · exact scheduled (Nat.le_refl _) hok hold
  · rw [List.mem_singleton.mp ha']
    exact .added (Nat.le_succ _) rfl rfl
  · exact scheduled (Nat.le_succ _) hok List.not_mem_nil

/-- Every attempt of every row after a step that recovers nothing. -/
theorem step_fate (hd : l.store.Distinct) (hl : l.Sound) (hin : l.inOrder e = true)
    (hrec : l.recovers e = false) (hstep : l.step limit env e = some l') (ht' : t' ∈ l'.store.tasks)
    {a' : QraftTaskAttempt} (ha' : a' ∈ t'.attempts) : Fate l e (l.announces env e) t' a' := by
  have same {ann : Option Announcement} (hann : ann = none) (hrows : l'.store.tasks = l.store.tasks) :
      Fate l e ann t' a' := by
    rw [hrows] at ht'
    exact fate_same ht' (fun n hn => by rw [hann] at hn; cases hn) ha'
  cases e with
  | handleResult i =>
    obtain ⟨r, hr, h⟩ := Option.bind_eq_some_iff.mp hstep
    split at h
    · rename_i hnone
      cases h
      exact same (by simp only [announces, hr, Option.bind_some, hnone, Option.bind_none]) rfl
    · rename_i t a hfind
      obtain ⟨ht, ha, hq⟩ := TaskStore.resolveAttempt_eq_some hfind
      obtain ⟨⟨u', routing⟩, hok, rfl⟩ := Option.map_eq_some_iff.mp h
      have hann : l.announces env (.handleResult i) = if routing = .dropped then none else some {
          task := t.id
          attempt := a.id
          outcome := if r.success then .succeeded else .failed
          settled := routing ≠ .absorbed } := by
        simp only [announces, hr, Option.bind_some, hfind, hok]
      have hok := Transaction.toOption_eq_some.mp hok
      rw [hann]
      rcases handleResult_ok hok with ⟨he, -⟩ | ⟨b, hb, hid, hnone, hres⟩
      · cases he
        rw [if_pos rfl]
        rcases (TaskStore.mem_save hd.tasks ht rfl t').mp ht' with ⟨hold, -⟩ | rfl
        · exact fate_same hold (fun n hn => by cases hn) ha'
        · exact fate_same ht (fun n hn => by cases hn) ha'
      · obtain ⟨hreads, hfails⟩ := handleResult_says hok
        have hne : routing ≠ .dropped := by
          rintro rfl
          cases hres
        have hset : decide (routing ≠ .absorbed) = decide (routing = .due) := by
          cases routing with
          | dropped => exact absurd rfl hne
          | absorbed => rfl
          | due => rfl
        rw [if_neg hne, hset]
        have hres : Resolved t b.id b.attemptNumber l.store.nextId env.now u' routing := hid ▸ hres
        have hsuccess : (if r.success then Resolution.succeeded else .failed).success = r.success := by
          cases r.success with
          | true => rfl
          | false => rfl
        refine fate_saved hd ht hb hnone hres rfl hid.symm rfl ?_ ?_ ?_ ht' ha'
        · intro hdue
          rw [hsuccess]
          exact hreads hdue
        · intro habs
          rw [hsuccess]
          exact hfails habs
        · intro hdue
          subst hdue
          exact handleResult_due hok
  | reap i =>
    obtain ⟨rd, hr, h⟩ := Option.bind_eq_some_iff.mp hstep
    obtain ⟨t, ht, h⟩ := Option.bind_eq_some_iff.mp h
    simp only at h
    split at h
    · rename_i hp
      have hp : t.reapable rd.row rd.heartbeatCutoff (l.q2Row rd.row) = true := hp
      obtain ⟨⟨u', routing⟩, hok, rfl⟩ := Option.map_eq_some_iff.mp h
      have hok : (t.reap rd.row (l.ownerCancelled t) l.store.nextId env).toOption = some (u', routing) := hok
      have hrow : rd.row.outputCommittedAt = none := by
        simp only [recovers, hr, Option.any_some, ht, hp, Bool.true_and] at hrec
        exact Option.not_isSome_iff_eq_none.mp (Bool.eq_false_iff.mp hrec)
      have hann : l.announces env (.reap i) = some {
          task := t.id
          attempt := rd.row.id
          outcome := .orphaned
          settled := routing ≠ .absorbed } := by
        simp only [announces, hr, Option.bind_some, ht]
        rw [if_pos ⟨hp, hrow⟩, hok]
        rfl
      have hok := Transaction.toOption_eq_some.mp hok
      have hrun : t.status = .running := by
        simp only [reapable, Bool.and_eq_true, decide_eq_true_eq] at hp
        exact hp.1.1.2
      obtain ⟨hmem, hid⟩ := TaskStore.task?_eq_some ht
      obtain ⟨u, hu, huid, a, ha, haid, hnum⟩ := hl.reads rd (List.mem_of_getElem? hr)
      obtain rfl := Rows.eq_of_key_eq hd.tasks hu hmem (huid.trans hid.symm)
      have hnone := reapInOrder_undecided hin hr ht hp a ha haid
      have hres := reap_ok hrun hok
      rw [← haid, ← hnum] at hres
      have hset : decide (routing ≠ .absorbed) = decide (routing = .due) := by
        cases routing with
        | dropped => cases hres
        | absorbed => rfl
        | due => rfl
      rw [hann, hset]
      refine fate_saved hd hmem ha hnone hres rfl haid.symm rfl ?_ (fun _ => rfl) ?_ ht' ha'
      · intro hdue
        subst hdue
        exact (reap_due hrow hrun hok).1
      · intro hdue
        subst hdue
        exact (reap_due hrow hrun hok).2
    · rename_i hp
      have hp : ¬ t.reapable rd.row rd.heartbeatCutoff (l.q2Row rd.row) = true := hp
      cases h
      apply same _ rfl
      simp only [announces, hr, Option.bind_some, ht]
      rw [if_neg fun h => hp h.1]
  | _ => exact fate_turn hd hstep (fun i => ⟨(fun h => by cases h), (fun h => by cases h)⟩) ht' ha'

/-- A task keeps its hooks. -/
theorem hooks_kept (hd : l.store.Distinct) (hstep : l.step limit env e = some l') (ht : t ∈ l.store.tasks)
    (ht' : t' ∈ l'.store.tasks) (hid : t'.id = t.id) : SameHooks t t' := by
  have hd' := (step_rows hd hstep).1
  obtain ⟨u, hu, heff⟩ := step_task hd hstep (hd.task?_of_mem ht)
  rw [← hid, hd'.task?_of_mem ht'] at hu
  rw [Option.some.inj hu]
  exact heff.sameHooks

/-- What a step announces is of an attempt there is. -/
theorem announces_row {n : Announcement} (hl : l.Sound) (h : l.announces env e = some n) :
    ∃ t ∈ l.store.tasks, ∃ a ∈ t.attempts, a.id = n.attempt := by
  cases e with
  | handleResult i =>
    obtain ⟨r, -, h⟩ := Option.bind_eq_some_iff.mp h
    obtain ⟨⟨t, a⟩, hfind, h⟩ := Option.bind_eq_some_iff.mp h
    obtain ⟨u, -, h⟩ := Option.bind_eq_some_iff.mp h
    obtain ⟨ht, ha, -⟩ := TaskStore.resolveAttempt_eq_some hfind
    split at h
    · cases h
    · cases h
      exact ⟨t, ht, a, ha, rfl⟩
  | reap i =>
    obtain ⟨rd, hr, h⟩ := Option.bind_eq_some_iff.mp h
    obtain ⟨t, -, h⟩ := Option.bind_eq_some_iff.mp h
    split at h
    · obtain ⟨u, -, rfl⟩ := Option.map_eq_some_iff.mp h
      obtain ⟨v, hv, -, a, ha, hid, -⟩ := hl.reads rd (List.mem_of_getElem? hr)
      exact ⟨v, hv, a, ha, hid⟩
    · cases h
  | _ => cases h

/-- An attempt before and after a step: its outcome stays, or it is decided and announced. -/
inductive Fate.Of (ann : Option Announcement) (t : QraftTask) (a : QraftTaskAttempt) (t' : QraftTask)
    (a' : QraftTaskAttempt) : Prop where
  | kept (hs : a'.success = a.success) (hann : ∀ n, ann = some n → n.attempt ≠ a.id)
  | decided {n : Announcement} (hnone : a.success = none) (hann : ann = some n) (htask : n.task = t.id)
      (hattempt : n.attempt = a.id) (hs : a'.success = some n.outcome.success)
      (hset : n.settled = true → a'.attemptNumber = a.attemptNumber ∧ t'.attempts.length = t.attempts.length)

/-- Every attempt there is, after a step that recovers nothing. -/
theorem attempt_fate (hd : l.store.Distinct) (hl : l.Sound) (hin : l.inOrder e = true)
    (hrec : l.recovers e = false) (hstep : l.step limit env e = some l') (ht : t ∈ l.store.tasks)
    {a : QraftTaskAttempt} (ha : a ∈ t.attempts) :
    ∃ t' ∈ l'.store.tasks, t'.id = t.id ∧ ∃ a' ∈ t'.attempts, a'.id = a.id ∧
      Fate.Of (l.announces env e) t a t' a' := by
  obtain ⟨t', ht', hid, a', ha', hlater, -⟩ := (step_rows hd hstep).2.kept t ht a ha
  refine ⟨t', ht', hid, a', ha', hlater.id, ?_⟩
  cases step_fate hd hl hin hrec hstep ht' ha' with
  | @kept u b hu hhooks hb hi hn hs hlen hr hann =>
    obtain ⟨rfl, rfl⟩ := hd.eq_of_id hu hb ht ha (hi.symm.trans hlater.id)
    exact .kept hs hann
  | @decided u b n hu hhooks hb hi hn hnone hann htask hattempt hs hset hretry =>
    obtain ⟨rfl, rfl⟩ := hd.eq_of_id hu hb ht ha (hi.symm.trans hlater.id)
    exact .decided hnone hann htask hattempt hs fun h => ⟨hn, (hset h).2⟩
  | added hi hs hr =>
    have hlt := ((hd.bound t ht).2 a ha).1
    rw [hlater.id] at hi
    exact absurd hlt (Nat.not_lt.mpr hi)

end
end Lifecycle
end Qraft
