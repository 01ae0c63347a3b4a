import Qraft.Lifecycle.Ownership
import Qraft.Lifecycle.WriteOnce

/-! One task of the table, whatever becomes of the others: what a step makes of its row, and what
holds of it while nobody requeues it or reaps it on a superseded read. -/
namespace Qraft
open AttemptHistory QraftTask

namespace TaskStore
variable {st : TaskStore}

theorem task?_map (st : TaskStore) {f : QraftTask → QraftTask} (hf : ∀ t, (f t).id = t.id) (n : Nat)
    (i : TaskId) :
    TaskStore.task? { tasks := st.tasks.map f, nextId := n } i = (st.task? i).map f :=
  Rows.get?_map hf st.tasks i

/-- The row of a task after one was written back. -/
theorem task?_save (t' : QraftTask) (i : TaskId) :
    (st.save t').fresh.task? i = (st.task? i).map fun r => if r.id = t'.id then t' else r := by
  have hf : (fun r : QraftTask => if r.id = t'.id then t' else r) =
      fun r => if decide (r.id = t'.id) = true then t' else r := by
    funext r
    simp only [decide_eq_true_eq]
  rw [hf]
  apply Rows.get?_map
  intro r
  split
  · rename_i h
    exact (of_decide_eq_true h).symm
  · rfl

theorem Distinct.task?_of_mem (h : st.Distinct) {t : QraftTask} (ht : t ∈ st.tasks) :
    st.task? t.id = some t := Rows.get?_of_mem h.tasks ht

/-- Rows dropped, or kept with their id and attempts. -/
theorem Distinct.filterMap (h : st.Distinct) {f : QraftTask → Option QraftTask}
    (hf : ∀ t t', f t = some t' → t'.id = t.id ∧ t'.attempts = t.attempts) :
    TaskStore.Distinct { st with tasks := st.tasks.filterMap f } := by
  have origin : ∀ t' ∈ st.tasks.filterMap f, ∃ t ∈ st.tasks, f t = some t' :=
    fun t' ht' => List.mem_filterMap.mp ht'
  refine ⟨?_, ?_, ?_, ?_, ?_, ?_⟩
  · exact h.tasks.sublist (Rows.filterMap_sublist (fun t t' he => (hf t t' he).1) _)
  · intro t' ht'
    obtain ⟨t, ht, he⟩ := origin t' ht'
    rw [(hf t t' he).2]
    exact h.attempts t ht
  · intro t' ht' a ha u' hu' b hb hab
    obtain ⟨t, ht, he⟩ := origin t' ht'
    obtain ⟨u, hu, he'⟩ := origin u' hu'
    rw [(hf t t' he).2] at ha
    rw [(hf u u' he').2] at hb
    have htu := h.owner t ht a ha u hu b hb hab
    rw [htu, he'] at he
    exact (Option.some.inj he).symm
  · intro t' ht' a ha u' hu' b hb
    obtain ⟨t, ht, he⟩ := origin t' ht'
    obtain ⟨u, hu, he'⟩ := origin u' hu'
    rw [(hf t t' he).2] at ha
    rw [(hf u u' he').2] at hb
    exact h.message t ht a ha u hu b hb
  · intro t' ht'
    obtain ⟨t, ht, he⟩ := origin t' ht'
    rw [(hf t t' he).1, (hf t t' he).2]
    exact h.bound t ht
  · intro t' ht'
    obtain ⟨t, ht, he⟩ := origin t' ht'
    rw [(hf t t' he).2]
    exact h.unclaimed t ht

theorem Distinct.map (h : st.Distinct) {f : QraftTask → QraftTask}
    (hf : ∀ t, (f t).id = t.id ∧ (f t).attempts = t.attempts) :
    TaskStore.Distinct { st with tasks := st.tasks.map f } := by
  have hrows : st.tasks.map f = st.tasks.filterMap fun t => some (f t) :=
    (congrFun List.filterMap_eq_map st.tasks).symm
  rw [hrows]
  apply h.filterMap
  intro t t' he
  rw [← Option.some.inj he]
  exact hf t

end TaskStore

namespace Lifecycle

inductive TaskEffect (limit : Nat) (l : Lifecycle) (env : Env) :
    LifecycleEvent → QraftTask → QraftTask → Prop where
  | same {e : LifecycleEvent} {t : QraftTask} : TaskEffect limit l env e t t
  | leased {q : Q2TaskId} {w : LeaseWrite} {t : QraftTask} :
      TaskEffect limit l env (.lease q w) t (t.updateMessage q (w.selects limit) (w.write env.now))
  | rearmed {cutoff : Time} {t : QraftTask} : TaskEffect limit l env (.rearm cutoff) t (t.rearm cutoff)
  | moved {e : LifecycleEvent} {t t' : QraftTask} (h : TaskMove l env e t t') :
      TaskEffect limit l env e t t'

section
variable {limit : Nat} {l l' : Lifecycle} {env : Env} {e : LifecycleEvent}

theorem step_task (hd : l.store.Distinct) (hstep : l.step limit env e = some l') {i : TaskId}
    {t : QraftTask} (ht : l.store.task? i = some t) :
    ∃ t', l'.store.task? i = some t' ∧ TaskEffect limit l env e t t' := by
  have heff := step_effect hstep
  generalize l'.store = st at heff
  cases heff with
  | idle => exact ⟨t, ht, .same⟩
  | leased q w =>
    have hmap := l.store.task?_map
      (f := fun t => t.updateMessage q (w.selects limit) (w.write env.now)) (fun _ => rfl) l.store.nextId i
    rw [ht] at hmap
    exact ⟨_, hmap, .leased⟩
  | rearmed cutoff =>
    have hmap := l.store.task?_map (f := fun t => t.rearm cutoff) (fun _ => rfl) l.store.nextId i
    rw [ht] at hmap
    exact ⟨_, hmap, .rearmed⟩
  | @written e u u' hu hm =>
    have hid := (hm.carries hd hu).id
    rw [TaskStore.task?_save, ht, Option.map_some]
    by_cases he : t.id = u'.id
    · obtain rfl : t = u := Rows.eq_of_key_eq hd.tasks (TaskStore.task?_eq_some ht).1 hu (he.trans hid)
      exact ⟨u', by rw [if_pos he], .moved hm⟩
    · exact ⟨t, by rw [if_neg he], .same⟩
  | enqueued metadata cluster trace => exact ⟨t, Rows.get?_append ht _, .same⟩
  | scheduled hok => exact ⟨t, Rows.get?_append ht _, .same⟩

end

/-- Only the status and the attempts of a task move, with the time of the change. -/
theorem TaskEffect.frame {limit : Nat} {l : Lifecycle} {env : Env} {e : LifecycleEvent}
    {t t' : QraftTask} (h : TaskEffect limit l env e t t') :
    t' = { t with status := t'.status, dateUpdated := t'.dateUpdated, attempts := t'.attempts } := by
  cases h with
  | same => rfl
  | leased => rfl
  | rearmed => rfl
  | moved h =>
    cases h with
    | claimed hok =>
      obtain ⟨-, rfl⟩ := claimAndEnqueue_eq_some hok
      rfl
    | published => rfl
    | routed => rfl
    | result hr ha hq hok =>
      rcases handleResult_ok hok with ⟨he, -⟩ | ⟨a, -, -, -, hres⟩
      · cases he
        rfl
      · exact hres.extends.frame
    | reaped hr ht hp hok =>
      simp only [reapable, Bool.and_eq_true, decide_eq_true_eq] at hp
      exact (reap_ok hp.1.1.2 hok).extends.frame
    | requeued hr ht hok =>
      obtain ⟨-, a, -, -, -, -, -, -, rfl⟩ := scheduleAttempt_ok hok
      rfl

/-- A status that changes is stamped. -/
theorem TaskEffect.stamped {limit : Nat} {l : Lifecycle} {env : Env} {e : LifecycleEvent}
    {t t' : QraftTask} (h : TaskEffect limit l env e t t') :
    (t'.status = t.status ∧ t'.dateUpdated = t.dateUpdated) ∨ t'.dateUpdated = env.now := by
  have resolved {id newId : AttemptId} {number : Nat} {routing : Routing}
      (hres : Resolved t id number newId env.now t' routing) : t'.dateUpdated = env.now := by
    cases hres with
    | decided hs hu ht => rcases ht with rfl | rfl <;> rw [hu] <;> rfl
    | retried hp hl hu =>
      obtain ⟨-, a, -, -, -, -, -, -, rfl⟩ := scheduleAttempt_ok hu
      rfl
  cases h with
  | same => exact .inl ⟨rfl, rfl⟩
  | leased => exact .inl ⟨rfl, rfl⟩
  | rearmed => exact .inl ⟨rfl, rfl⟩
  | moved h =>
    cases h with
    | claimed hok =>
      obtain ⟨-, rfl⟩ := claimAndEnqueue_eq_some hok
      by_cases hp : t.status = .pending
      · exact .inr (if_pos hp)
      · exact .inl ⟨if_neg hp, if_neg hp⟩
    | published => exact .inl ⟨rfl, rfl⟩
    | routed => exact .inl ⟨rfl, rfl⟩
    | result hr ha hq hok =>
      rcases handleResult_ok hok with ⟨he, -⟩ | ⟨a, -, -, -, hres⟩
      · cases he
        exact .inl ⟨rfl, rfl⟩
      · exact .inr (resolved hres)
    | reaped hr ht hp hok =>
      simp only [reapable, Bool.and_eq_true, decide_eq_true_eq] at hp
      exact .inr (resolved (reap_ok hp.1.1.2 hok))
    | requeued hr ht hok =>
      obtain ⟨-, a, -, -, -, -, -, -, rfl⟩ := scheduleAttempt_ok hok
      exact .inr rfl

/-- A row of the table was there before, or was created by the step. -/
theorem step_origin {limit : Nat} {l l' : Lifecycle} {env : Env} {e : LifecycleEvent}
    {t' : QraftTask} (hd : l.store.Distinct) (hstep : l.step limit env e = some l')
    (ht' : t' ∈ l'.store.tasks) :
    (∃ t, l.store.task? t'.id = some t ∧ TaskEffect limit l env e t t') ∨
    (∃ metadata cluster trace, e = .asyncTask metadata cluster trace ∧
      t' = metadata.enqueued cluster trace l.store.nextId env) ∨
    ∃ metadata cluster, e = .scheduleTask metadata cluster ∧
      { metadata with id := l.store.nextId, status := .pending, attempts := [] }.scheduleAttempt
        (l.store.nextId + 1) 1 env.now cluster env.now = .ok t' := by
  have hd' := (step_rows hd hstep).1
  have old {t : QraftTask} (ht : t ∈ l.store.tasks) (hid : t.id = t'.id) :
      ∃ t, l.store.task? t'.id = some t ∧ TaskEffect limit l env e t t' := by
    have hfind := hd.task?_of_mem ht
    obtain ⟨u, hu, heff⟩ := step_task hd hstep hfind
    rw [hid, hd'.task?_of_mem ht'] at hu
    obtain rfl := Option.some.inj hu
    exact ⟨t, hid ▸ hfind, heff⟩
  have heff := step_effect hstep
  generalize hst : l'.store = st at heff ht'
  cases heff with
  | idle => exact .inl (old ht' rfl)
  | leased q w =>
    obtain ⟨t, ht, he⟩ := List.mem_map.mp ht'
    exact .inl (old ht (by rw [← he]; rfl))
  | rearmed cutoff =>
    obtain ⟨t, ht, he⟩ := List.mem_map.mp ht'
    exact .inl (old ht (by rw [← he]; rfl))
  | @written _ u u' hu hm =>
    have hid := (hm.carries hd hu).id
    rcases (TaskStore.mem_save hd.tasks hu hid t').mp ht' with ⟨ht, -⟩ | rfl
    · exact .inl (old ht rfl)
    · exact .inl (old hu hid.symm)
  | enqueued metadata cluster trace =>
    rcases List.mem_append.mp ht' with ht | ht
    · exact .inl (old ht rfl)
    · exact .inr (.inl ⟨metadata, cluster, trace, rfl, List.mem_singleton.mp ht⟩)
  | @scheduled metadata cluster u hok =>
    rcases List.mem_append.mp ht' with ht | ht
    · exact .inl (old ht rfl)
    · rw [List.mem_singleton.mp ht]
      exact .inr (.inr ⟨metadata, cluster, rfl, hok⟩)

/-- The columns of an attempt its routing depends on. -/
def SameRoute (a b : QraftTaskAttempt) : Prop :=
  b.id = a.id ∧ b.attemptNumber = a.attemptNumber ∧ b.success = a.success ∧ b.routed = a.routed

theorem SameRoute.refl (a : QraftTaskAttempt) : SameRoute a a := ⟨rfl, rfl, rfl, rfl⟩

theorem sameRoute_ite {f : QraftTaskAttempt → QraftTaskAttempt} {p : QraftTaskAttempt → Bool}
    (hf : ∀ a, SameRoute a (f a)) (a : QraftTaskAttempt) : SameRoute a (if p a = true then f a else a) := by
  split
  · exact hf a
  · exact .refl a

/-- What a step makes of a task, as far as routing goes. -/
inductive Turn (l : Lifecycle) (env : Env) (e : LifecycleEvent) (t t' : QraftTask) : Prop where
  /-- No attempt is decided, flagged or added. -/
  | kept {f : QraftTaskAttempt → QraftTaskAttempt} (hf : ∀ a ∈ t.attempts, SameRoute a (f a))
      (ha : t'.attempts = t.attempts.map f)
      (hs : t'.status = t.status ∨ (t.status = .pending ∧ t'.status = .running))
      (ho : (∃ attempt, e = .commitOutput t.id attempt) ∨
        ∀ a ∈ t.attempts, (f a).outputCommittedAt = a.outputCommittedAt)
  | flagged {i : Nat} {held : QraftTask} {attempt : AttemptId} (he : e = .route i)
      (hd : l.due[i]? = some (held, attempt)) (hid : held.id = t.id) (h : t' = t.markRouted attempt)
  /-- The result of an undecided attempt. -/
  | resolved {a : QraftTaskAttempt} {r : Q2Task} {routing : Routing} (ha : a ∈ t.attempts)
      (hn : a.success = none)
      (hok : t.handleResult a.id r (l.ownerCancelled t) l.store.nextId env = .ok (t', routing))
      (h : Resolved t a.id a.attemptNumber l.store.nextId env.now t' routing)
  /-- An attempt that was undecided when the reaper read it. -/
  | reaped {i : Nat} {rd : ReaperRead} {routing : Routing} (he : e = .reap i)
      (hr : l.reads[i]? = some rd) (ht : l.store.task? rd.task = some t)
      (hp : t.reapable rd.row rd.heartbeatCutoff (l.q2Row rd.row) = true)
      (h : t.reap rd.row (l.ownerCancelled t) l.store.nextId env = .ok (t', routing))
  | requeued {i : Nat} {r : Requeue} (he : e = .requeueCommit i) (hr : l.requeues[i]? = some r)
      (ht : l.store.task? r.task = some t)
      (h : t.scheduleAttempt l.store.nextId r.attemptNumber env.now r.cluster env.now = .ok t')

/-- A write to other columns of some attempts. -/
private theorem Turn.written {l : Lifecycle} {env : Env} {e : LifecycleEvent} {t t' : QraftTask}
    {f : QraftTaskAttempt → QraftTaskAttempt} {p : QraftTaskAttempt → Bool}
    (hf : ∀ a, SameRoute a (f a)) (ha : t'.attempts = Rows.updateWhere p f t.attempts)
    (hs : t'.status = t.status ∨ (t.status = .pending ∧ t'.status = .running))
    (ho : (∃ attempt, e = .commitOutput t.id attempt) ∨
      ∀ a, (f a).outputCommittedAt = a.outputCommittedAt) : Turn l env e t t' := by
  refine .kept (fun a _ => sameRoute_ite hf a) ha hs ?_
  rcases ho with ho | ho
  · exact .inl ho
  · refine .inr fun a _ => ?_
    split
    · exact ho a
    · rfl

theorem TaskEffect.turn {limit : Nat} {l : Lifecycle} {env : Env} {e : LifecycleEvent}
    {t t' : QraftTask} (h : TaskEffect limit l env e t t') : Turn l env e t t' := by
  cases h with
  | same => exact .kept (fun a _ => .refl a) (List.map_id' _).symm (.inl rfl) (.inr fun _ _ => rfl)
  | @leased q w t =>
    refine Turn.written (f := w.write env.now) ?_ rfl (.inl rfl) (.inr ?_)
    · intro a
      cases w <;> exact ⟨rfl, rfl, rfl, rfl⟩
    · intro a
      cases w <;> rfl
  | @rearmed cutoff t =>
    refine Turn.written (f := fun a => { a with state := .scheduled, claimedAt := none }) ?_ rfl
      (.inl rfl) (.inr fun _ => rfl)
    exact fun a => ⟨rfl, rfl, rfl, rfl⟩
  | moved h =>
    cases h with
    | @claimed task attempt cutoff t t' hok =>
      obtain ⟨-, rfl⟩ := claimAndEnqueue_eq_some hok
      refine Turn.written (f := fun a => a.enqueue env.now l.store.nextId env.executingCluster) ?_ rfl
        ?_ (.inr fun _ => rfl)
      · exact fun a => ⟨rfl, rfl, rfl, rfl⟩
      · rw [setStatus_status]
        by_cases hp : t.status = .pending
        · exact .inr ⟨hp, if_pos hp⟩
        · exact .inl (if_neg hp)
    | @published task attempt t ht =>
      obtain rfl := (TaskStore.task?_eq_some ht).2
      refine Turn.written (f := fun a => { a with outputCommittedAt := some env.now }) ?_ rfl (.inl rfl)
        (.inl ⟨attempt, rfl⟩)
      exact fun a => ⟨rfl, rfl, rfl, rfl⟩
    | routed hd ht => exact .flagged rfl hd ht rfl
    | result hr ha hq hok =>
      rcases handleResult_ok hok with ⟨he, -⟩ | ⟨b, hb, hid, hn, hres⟩
      · cases he
        exact .kept (fun a _ => .refl a) (List.map_id' _).symm (.inl rfl) (.inr fun _ _ => rfl)
      · rw [← hid] at hres hok
        exact .resolved hb hn hok hres
    | reaped hr ht hp hok => exact .reaped rfl hr ht hp hok
    | requeued hr ht hok => exact .requeued rfl hr ht hok

/-- A write that decides the attempt under an id and leaves the others. -/
structure DecidesAt (attempt : AttemptId) (success : Bool) (f : QraftTaskAttempt → QraftTaskAttempt) :
    Prop where
  id : ∀ c, (f c).id = c.id
  number : ∀ c, (f c).attemptNumber = c.attemptNumber
  same : ∀ c, c.id ≠ attempt → f c = c
  decided : ∀ c, c.id = attempt → (f c).success = some success
  committed : ∀ c, (f c).outputCommittedAt = c.outputCommittedAt

theorem decidesAt_decide (id : AttemptId) (success : Bool) (exc : Option String) (completed : Time) :
    DecidesAt id success fun a => if decide (a.id = id) = true then a.decide success exc completed else a := by
  refine ⟨?_, ?_, ?_, ?_, ?_⟩
  · intro c
    split
    · rfl
    · rfl
  · intro c
    split
    · rfl
    · rfl
  · intro c hne
    rw [if_neg (by simpa using hne)]
  · intro c he
    rw [if_pos (by simpa using he)]
    rfl
  · intro c
    split
    · rfl
    · rfl

/-- Flagging the decided attempt as well. -/
theorem DecidesAt.flagged {id : AttemptId} {success : Bool} {f : QraftTaskAttempt → QraftTaskAttempt}
    (h : DecidesAt id success f) :
    DecidesAt id success (fun a => if decide ((f a).id = id) = true then { f a with routed := true } else f a) ∧
      ∀ c, c.id = id → (if decide ((f c).id = id) = true then { f c with routed := true } else f c).routed
        = true := by
  refine ⟨⟨?_, ?_, ?_, ?_, ?_⟩, ?_⟩
  · intro c
    split
    · exact h.id c
    · exact h.id c
  · intro c
    split
    · exact h.number c
    · exact h.number c
  · intro c hne
    rw [if_neg (by simpa [h.id] using hne)]
    exact h.same c hne
  · intro c he
    rw [if_pos (by simpa [h.id] using he)]
    exact h.decided c he
  · intro c
    split
    · exact h.committed c
    · exact h.committed c
  · intro c he
    rw [if_pos (by simpa [h.id] using he)]

/-- The attempts a resolution leaves: the ones there were, one of them decided, and perhaps one
more. -/
theorem resolved_rows {t t' : QraftTask} {id newId : AttemptId} {number : Nat} {now : Time}
    {routing : Routing} (h : Resolved t id number newId now t' routing) :
    ∃ f success, DecidesAt id success f ∧
      ((routing = .due ∧ t'.status.verdict = some success ∧ t'.attempts = t.attempts.map f) ∨
        (routing = .absorbed ∧ success = false ∧ t'.status = .pending ∧
          (∀ c, c.id = id → (f c).routed = true) ∧
          ∃ b, t'.attempts = t.attempts.map f ++ [b] ∧ b.id = newId ∧ b.attemptNumber = number + 1 ∧
            b.success = none ∧ b.outputCommittedAt = none ∧ (newId ≠ id → b.routed = false))) := by
  cases h with
  | @decided _ u success exc completed s hs hu ht =>
    have hd := decidesAt_decide id success exc completed
    have hrows : u.attempts = t.attempts.map fun a =>
        if decide (a.id = id) = true then a.decide success exc completed else a := by
      rw [hu]
      rfl
    rcases ht with rfl | rfl
    · exact ⟨_, success, hd, .inl ⟨rfl, by rw [hu]; exact hs, hrows⟩⟩
    · refine ⟨_, success, hd.flagged.1, .inl ⟨rfl, by rw [hu]; exact hs, ?_⟩⟩
      rw [markRouted, updateAttempt_attempts, hrows, List.map_map]
      rfl
  | @retried u exc completed policy notBefore cluster hp hl hu =>
    obtain ⟨-, hrows⟩ := scheduleAttempt_attempts hu
    obtain ⟨-, b, hb⟩ := scheduleAttempt_ok hu
    obtain ⟨hd, hflag⟩ := (decidesAt_decide id false exc completed).flagged
    refine ⟨_, false, hd, .inr ⟨rfl, rfl, ?_, hflag, ?_⟩⟩
    · rw [hb.2.2.2.2.2.2]
      rfl
    · let n := (t.updateAttempt id fun a => a.decide false exc completed).newAttempt newId (number + 1)
        notBefore cluster now none none
      refine ⟨if decide (n.id = id) = true then { n with routed := true } else n, ?_, ?_, ?_, ?_, ?_, ?_⟩
      · rw [markRouted, updateAttempt_attempts, hrows, List.map_append, updateAttempt_attempts, List.map_map]
        rfl
      · split
        · rfl
        · rfl
      · split
        · rfl
        · rfl
      · split
        · rfl
        · rfl
      · split
        · rfl
        · rfl
      · intro hne
        rw [if_neg fun hd : decide (n.id = id) = true => hne (of_decide_eq_true hd)]
        rfl

/-- Whether a step leaves the tasks selected in order: it neither requeues one of them nor reaps
one on a superseded read. -/
def orderlyFor (l : Lifecycle) (p : TaskId → Bool) : LifecycleEvent → Bool
  | .requeueCommit i => l.requeues[i]?.all fun r => !p r.task
  | .reap i => l.reads[i]?.all fun rd => !p rd.task || l.reapInOrder i
  | _ => true

section
variable {limit : Nat} {l l' : Lifecycle} {env : Env} {e : LifecycleEvent} {i : TaskId}
  {t t' : QraftTask}

theorem TaskMove.orderly {p : TaskId → Bool} (h : TaskMove l env e t t')
    (ht : l.store.task? i = some t) (hp : p i = true) (hord : l.orderlyFor p e = true) :
    l.InOrder (e, env) ∧ e.isRequeue = false := by
  have hid := (TaskStore.task?_eq_some ht).2
  cases h with
  | claimed hok => exact ⟨rfl, rfl⟩
  | published ht => exact ⟨rfl, rfl⟩
  | routed hd hid => exact ⟨rfl, rfl⟩
  | result hr ha hq hok => exact ⟨rfl, rfl⟩
  | @reaped j rd _ _ _ hr htask hpass hok =>
    have hi : rd.task = i := (TaskStore.task?_eq_some htask).2.symm.trans hid
    rw [orderlyFor, hr, Option.all_some, hi, hp, Bool.not_true, Bool.false_or] at hord
    exact ⟨hord, rfl⟩
  | @requeued j r _ _ hr htask hok =>
    have hi : r.task = i := (TaskStore.task?_eq_some htask).2.symm.trans hid
    rw [orderlyFor, hr, Option.all_some, hi, hp] at hord
    cases hord

/-- One step of the history of a task that is left in order. -/
theorem TaskEffect.next {p : TaskId → Bool} (h : TaskEffect limit l env e t t') (hc : t.Coherent)
    (hfresh : ∀ a ∈ t.attempts, a.id ≠ l.store.nextId)
    (hreads : ∀ rd ∈ l.reads, l.store.task? rd.task = some t →
      ∃ a ∈ t.attempts, a.id = rd.row.id ∧ a.attemptNumber = rd.row.attemptNumber)
    (ht : l.store.task? i = some t) (hp : p i = true) (hord : l.orderlyFor p e = true) :
    Next false l.store.nextId t t' := by
  cases h with
  | same => exact .refl _ hc
  | @leased q w t => exact (next_leased hc false _ limit q w env.now).1
  | @rearmed cutoff t =>
    rw [hc.rearm_eq]
    exact .refl _ hc
  | moved hm =>
    obtain ⟨hin, hreq⟩ := hm.orderly ht hp hord
    rw [← hreq]
    refine hm.next_of hc hfresh hreads ?_ hin
    rintro j rfl
    cases hreq

/-- The latest attempt of a task is this one, decided with this outcome. -/
def DecidedBy (t : QraftTask) (attempt : AttemptId) (success : Bool) : Prop :=
  ∃ a ∈ t.attempts, a.id = attempt ∧ a.attemptNumber = t.attempts.length ∧ a.success = some success

theorem DecidedBy.verdict {attempt : AttemptId} {success : Bool} (h : DecidedBy t attempt success)
    (hc : t.Coherent) : t.status.verdict = some success := by
  obtain ⟨a, ha, -, hnum, hs⟩ := h
  obtain ⟨b, hb, -, hnum', hv, -⟩ := hc.latestAttempt_eq
  rw [← hv, hc.eq_of_number hb ha (hnum'.trans hnum.symm), hs]

theorem DecidedBy.succeeded {attempt : AttemptId} (h : DecidedBy t attempt true) (hc : t.Coherent) :
    t.status = .succeeded := by
  have hv := h.verdict hc
  cases hst : t.status with
  | succeeded => rfl
  | pending | running | failed | exhausted =>
    rw [hst] at hv
    cases hv

theorem DecidedBy.terminal {attempt : AttemptId} {success : Bool} (h : DecidedBy t attempt success)
    (hc : t.Coherent) : t.status.Terminal := by
  have hv := h.verdict hc
  cases hst : t.status with
  | succeeded => exact .inl rfl
  | failed => exact .inr (.inl rfl)
  | exhausted => exact .inr (.inr rfl)
  | pending | running =>
    rw [hst] at hv
    cases hv

theorem DecidedBy.unique {attempt attempt' : AttemptId} {success success' : Bool}
    (h : DecidedBy t attempt success) (h' : DecidedBy t attempt' success') (hc : t.Coherent) :
    attempt = attempt' ∧ success = success' := by
  obtain ⟨a, ha, rfl, hnum, hs⟩ := h
  obtain ⟨b, hb, rfl, hnum', hs'⟩ := h'
  obtain rfl := hc.eq_of_number ha hb (hnum.trans hnum'.symm)
  exact ⟨rfl, Option.some.inj (hs.symm.trans hs')⟩

/-- Once a task is decided nothing is added to its history. -/
theorem DecidedBy.next {attempt : AttemptId} {success : Bool} (h : DecidedBy t attempt success)
    (hc : t.Coherent) {newId : AttemptId} (hn : Next false newId t t') :
    DecidedBy t' attempt success := by
  have hv := h.verdict hc
  have hsettled : t.history.stage = .settled :=
    TaskStatus.stage_settled_iff.mpr (by rw [hv]; exact Option.some_ne_none _)
  have hhist : t'.history = t.history := by
    cases hn.move with
    | step hs =>
      generalize ht : t.history = h₀ at hs hsettled
      generalize t'.history = h₁ at hs
      cases hs with
      | stay h => rfl
      | start past => cases hsettled
      | settle past o => cases hsettled
      | retry past o hf hl => cases hsettled
    | reopen hr hs hp => cases hr
  obtain ⟨a, ha, rfl, hnum, hs⟩ := h
  obtain ⟨a', ha', hid, hnum'⟩ := hn.extension.mem ha
  have hlen : t'.attempts.length = t.attempts.length := by
    rw [hn.coherent.length_eq, hc.length_eq, hhist]
  have hout := hn.coherent.outcome_eq ha'
  rw [hhist, hnum', hc.outcome_eq ha] at hout
  refine ⟨a', ha', hid, by rw [hnum', hnum, hlen], ?_⟩
  obtain ⟨o, ho⟩ := Option.ne_none_iff_exists'.mp (mt outcome_eq_none.mp (hs ▸ Option.some_ne_none _))
  obtain ⟨hsu, -⟩ := outcome_eq_some ho
  obtain ⟨hsu', -⟩ := outcome_eq_some (hout ▸ ho)
  rw [hsu', ← hsu, hs]

/-- What comes to be due: an attempt found decided and not flagged, or one decided just now. -/
theorem step_due (hd : l.store.Distinct) (hstep : l.step limit env e = some l')
    {x : QraftTask × AttemptId} (hx : x ∈ l'.due) :
    x ∈ l.due ∨
    (∃ a, l.store.task? x.1.id = some x.1 ∧ l'.store = l.store ∧ a ∈ x.1.attempts ∧ a.id = x.2 ∧
      a.success ≠ none ∧ a.routed = false) ∨
    ∃ t number, l.store.task? x.1.id = some t ∧ l'.store.task? x.1.id = some x.1 ∧
      TaskMove l env e t x.1 ∧ Resolved t x.2 number l.store.nextId env.now x.1 .due ∧
      ((∃ a ∈ t.attempts, a.id = x.2 ∧ a.success = none) ∨
        ∃ i rd, e = .reap i ∧ l.reads[i]? = some rd ∧ l.store.task? rd.task = some t ∧
          t.reapable rd.row rd.heartbeatCutoff (l.q2Row rd.row) = true ∧ rd.row.id = x.2) := by
  -- The row a resolution writes is the one found under its id afterwards.
  have saved {t t' : QraftTask} (ht : t ∈ l.store.tasks) (hm : TaskMove l env e t t') :
      l.store.task? t'.id = some t ∧ (l.store.save t').fresh.task? t'.id = some t' := by
    have hid := (hm.carries hd ht).id
    have hfind : l.store.task? t'.id = some t := hid ▸ hd.task?_of_mem ht
    rw [TaskStore.task?_save, hfind]
    exact ⟨rfl, congrArg some (if_pos hid.symm)⟩
  cases e with
  | replayUnrouted task attempt cutoff =>
    obtain ⟨⟨t, a⟩, hf, h⟩ := Option.bind_eq_some_iff.mp hstep
    simp only at h
    split at h
    · rename_i hcond
      cases h
      rcases List.mem_append.mp hx with hx | hx
      · exact .inl hx
      · rw [List.mem_singleton.mp hx]
        obtain ⟨ht, -, ha, haid⟩ := find_eq_some hf
        exact .inr (.inl ⟨a, hd.task?_of_mem ht, rfl, ha, haid, hcond.1, hcond.2.1⟩)
    · cases h
  | handleResult i =>
    obtain ⟨r, hr, h⟩ := Option.bind_eq_some_iff.mp hstep
    split at h
    · cases h
      exact .inl hx
    · rename_i t a hfind
      obtain ⟨ht, ha, hq⟩ := TaskStore.resolveAttempt_eq_some hfind
      obtain ⟨⟨t', routing⟩, hok, rfl⟩ := Option.map_eq_some_iff.mp h
      have hok := Transaction.toOption_eq_some.mp hok
      rcases List.mem_append.mp hx with hold | hnew
      · exact .inl hold
      · simp only at hnew
        split at hnew
        · rename_i hdue
          subst hdue
          rw [List.mem_singleton.mp hnew]
          have hm : TaskMove l env (.handleResult i) t t' := .result hr ha hq hok
          obtain ⟨h₁, h₂⟩ := saved ht hm
          rcases handleResult_ok hok with ⟨he, -⟩ | ⟨b, hb, hid, hn, hres⟩
          · cases he
          · exact .inr (.inr ⟨t, _, h₁, h₂, hm, hres, .inl ⟨b, hb, hid, hn⟩⟩)
        · exact absurd hnew List.not_mem_nil
  | reap i =>
    obtain ⟨rd, hr, h⟩ := Option.bind_eq_some_iff.mp hstep
    obtain ⟨t, ht, h⟩ := Option.bind_eq_some_iff.mp h
    simp only at h
    split at h
    · rename_i hp
      obtain ⟨⟨t', routing⟩, hok, rfl⟩ := Option.map_eq_some_iff.mp h
      have hok := Transaction.toOption_eq_some.mp hok
      rcases List.mem_append.mp hx with hold | hnew
      · exact .inl hold
      · simp only at hnew
        split at hnew
        · rename_i hdue
          subst hdue
          rw [List.mem_singleton.mp hnew]
          have hp : t.reapable rd.row rd.heartbeatCutoff (l.q2Row rd.row) = true := hp
          have hm : TaskMove l env (.reap i) t t' := .reaped hr ht hp hok
          obtain ⟨h₁, h₂⟩ := saved (TaskStore.task?_eq_some ht).1 hm
          have hrun : t.status = .running := by
            simp only [reapable, Bool.and_eq_true, decide_eq_true_eq] at hp
            exact hp.1.1.2
          exact .inr (.inr ⟨t, _, h₁, h₂, hm, reap_ok hrun hok, .inr ⟨i, rd, rfl, hr, ht, hp, rfl⟩⟩)
        · exact absurd hnew List.not_mem_nil
    · cases h
      exact .inl hx
  | route i =>
    obtain ⟨⟨held, attempt⟩, hd, h⟩ := Option.bind_eq_some_iff.mp hstep
    obtain ⟨t, ht, rfl⟩ := Option.map_eq_some_iff.mp h
    exact .inl (List.mem_of_mem_eraseIdx hx)
  | crash i =>
    cases hstep
    exact .inl (List.mem_of_mem_eraseIdx hx)
  | _ =>
    simp only [step, Option.bind_eq_some_iff, Option.map_eq_some_iff] at hstep
    grind [commit, Option.map_eq_some_iff]

/-- A task that was left in order, with what the processes know of it. -/
structure Firm (l : Lifecycle) (t : QraftTask) : Prop where
  coherent : t.Coherent
  /-- An attempt that a retry followed was flagged with it. -/
  routed : ∀ a ∈ t.attempts, a.success ≠ none → a.attemptNumber < t.attempts.length → a.routed = true
  reads : ∀ rd ∈ l.reads, rd.task = t.id →
    ∃ a ∈ t.attempts, a.id = rd.row.id ∧ a.attemptNumber = rd.row.attemptNumber
  due : ∀ x ∈ l.due, x.1.id = t.id → ∀ b ∈ x.1.attempts, b.id = x.2 → ∀ success,
    b.success = some success → DecidedBy t x.2 success

namespace Firm

/-- Deciding the undecided attempt leaves only the latest attempt to be flagged. -/
private theorem routed_resolved (h : Firm l t) {a : QraftTaskAttempt} {routing : Routing} {newId : AttemptId}
    {now : Time} (ha : a ∈ t.attempts) (hn : a.success = none)
    (hres : Resolved t a.id a.attemptNumber newId now t' routing) :
    ∀ b ∈ t'.attempts, b.success ≠ none → b.attemptNumber < t'.attempts.length → b.routed = true := by
  have hlast := (h.coherent.undecided ha hn).2.1
  obtain ⟨f, success, hd, ⟨-, -, hrows⟩ | ⟨-, -, -, hflag, n, hrows, -, hnum, -⟩⟩ := resolved_rows hres
  · intro b hb hdec hlt
    rw [hrows] at hb hlt
    obtain ⟨c, hc, rfl⟩ := List.mem_map.mp hb
    rw [List.length_map, hd.number] at hlt
    have hne : c.id ≠ a.id := by
      intro he
      rw [h.coherent.eq_of_id hc ha he, hlast] at hlt
      exact Nat.lt_irrefl _ hlt
    rw [hd.same c hne] at hdec ⊢
    exact h.routed c hc hdec hlt
  · intro b hb hdec hlt
    rw [hrows] at hb hlt
    rw [List.length_append, List.length_map, List.length_singleton] at hlt
    rcases List.mem_append.mp hb with hb | hb
    · obtain ⟨c, hc, rfl⟩ := List.mem_map.mp hb
      by_cases he : c.id = a.id
      · exact hflag c he
      · rw [hd.same c he] at hdec ⊢
        have hle := (h.coherent.number_bounds hc).2
        have hne : c.attemptNumber ≠ t.attempts.length := fun hc' =>
          he (congrArg _ (h.coherent.eq_of_number hc ha (hc'.trans hlast.symm)))
        exact h.routed c hc hdec (Nat.lt_of_le_of_ne hle hne)
    · rw [List.mem_singleton.mp hb] at hlt
      omega

private theorem decidedBy_resolved (h : Firm l t) {a b : QraftTaskAttempt} {number : Nat}
    {newId : AttemptId} {now : Time} (ha : a ∈ t.attempts) (hn : a.success = none) (hc : t'.Coherent)
    (hres : Resolved t a.id number newId now t' .due) (hb : b ∈ t'.attempts)
    (hid : b.id = a.id) {success : Bool} (hs : b.success = some success) : DecidedBy t' a.id success := by
  have hlast := (h.coherent.undecided ha hn).2.1
  obtain ⟨f, _, hd, ⟨-, -, hrows⟩ | ⟨hr, -⟩⟩ := resolved_rows hres
  · refine ⟨b, hb, hid, ?_, hs⟩
    have hfa : f a ∈ t'.attempts := by
      rw [hrows]
      exact List.mem_map_of_mem ha
    rw [hc.eq_of_id hb hfa (hid.trans (hd.id a).symm), hd.number, hlast, hrows, List.length_map]
  · cases hr

/-- The attempt a reap in order resolves is undecided. -/
private theorem reaped_undecided (h : Firm l t) {p : TaskId → Bool} {j : Nat} {rd : ReaperRead}
    (hrd : l.reads[j]? = some rd) (htask : l.store.task? rd.task = some t)
    (hpass : t.reapable rd.row rd.heartbeatCutoff (l.q2Row rd.row) = true) (hp : p t.id = true)
    (hord : l.orderlyFor p (.reap j) = true) :
    ∃ a ∈ t.attempts, a.success = none ∧ a.id = rd.row.id ∧ a.attemptNumber = rd.row.attemptNumber := by
  have hi : rd.task = t.id := (TaskStore.task?_eq_some htask).2.symm
  rw [orderlyFor, hrd, Option.all_some, hi, hp, Bool.not_true, Bool.false_or] at hord
  obtain ⟨a, ha, hid, hnum⟩ := h.reads rd (List.mem_of_getElem? hrd) hi
  exact ⟨a, ha, reapInOrder_undecided hord hrd htask hpass a ha hid, hid, hnum⟩

/-- A task stays firm through any step that leaves it in order. -/
theorem next (h : Firm l t) (hd : l.store.Distinct) (hstep : l.step limit env e = some l')
    {p : TaskId → Bool} (ht : l.store.task? i = some t) (hp : p i = true)
    (hord : l.orderlyFor p e = true) :
    ∃ t', l'.store.task? i = some t' ∧ Firm l' t' ∧ Next false l.store.nextId t t' := by
  obtain ⟨t', ht', heff⟩ := step_task hd hstep ht
  obtain ⟨hmem, hid⟩ := TaskStore.task?_eq_some ht
  have hfresh : ∀ a ∈ t.attempts, a.id ≠ l.store.nextId := fun a ha =>
    Nat.ne_of_lt ((hd.bound t hmem).2 a ha).1
  have hn : Next false l.store.nextId t t' := by
    refine heff.next h.coherent hfresh ?_ ht hp hord
    intro rd hrd htask
    exact h.reads rd hrd (TaskStore.task?_eq_some htask).2.symm
  have hid' : t'.id = t.id := hn.extension.id_eq
  refine ⟨t', ht', ⟨hn.coherent, ?_, ?_, ?_⟩, hn⟩
  · cases heff.turn with
    | @kept f hf hrows hs ho =>
      intro b hb hdec hlt
      rw [hrows] at hb hlt
      obtain ⟨a, ha, rfl⟩ := List.mem_map.mp hb
      obtain ⟨-, hnum, hsu, hro⟩ := hf a ha
      rw [List.length_map, hnum] at hlt
      rw [hro]
      exact h.routed a ha (hsu ▸ hdec) hlt
    | @flagged j held attempt he hdue hhid hrow =>
      intro b hb hdec hlt
      rw [hrow] at hb hlt
      obtain ⟨a, ha, rfl⟩ := Rows.mem_updateWhere.mp hb
      have hlen : (t.markRouted attempt).attempts.length = t.attempts.length := List.length_map _
      rw [hlen] at hlt
      split
      · rfl
      · rename_i hne
        rw [if_neg hne] at hdec hlt
        exact h.routed a ha hdec hlt
    | resolved ha hnone hok hres => exact h.routed_resolved ha hnone hres
    | @reaped j rd routing he hrd htask hpass hok =>
      subst he
      obtain ⟨a, ha, hnone, haid, hnum⟩ := h.reaped_undecided hrd htask hpass (hid ▸ hp) hord
      have hrun : t.status = .running := by
        simp only [reapable, Bool.and_eq_true, decide_eq_true_eq] at hpass
        exact hpass.1.1.2
      have hres := reap_ok hrun hok
      rw [← haid, ← hnum] at hres
      exact h.routed_resolved ha hnone hres
    | @requeued j r he hr htask hok =>
      subst he
      have hi : r.task = i := (TaskStore.task?_eq_some htask).2.symm.trans hid
      rw [orderlyFor, hr, Option.all_some, hi, hp] at hord
      cases hord
  · intro rd hrd hrid
    rcases step_reads hstep hrd with hold | ⟨c, -, u, hf, hc, -⟩
    · obtain ⟨a, ha, haid, hnum⟩ := h.reads rd hold (hrid.trans hid')
      obtain ⟨a', ha', hid₂, hnum₂⟩ := hn.extension.mem ha
      exact ⟨a', ha', hid₂.trans haid, hnum₂.trans hnum⟩
    · obtain ⟨hu, huid, ha, -⟩ := find_eq_some hf
      have hut : u = t := by
        apply Rows.eq_of_key_eq hd.tasks hu hmem
        exact huid.trans (hc.symm.trans (hrid.trans hid'))
      subst hut
      exact hn.extension.mem ha
  · intro x hx hxid b hb hbid success hs
    rcases step_due hd hstep hx with hold | ⟨a, hfind, hsame, ha, haid, hdec, hflag⟩ |
      ⟨u, number, hfind, hfind', hm, hres, hwho⟩
    · exact (h.due x hold (hxid.trans hid') b hb hbid success hs).next h.coherent hn
    · rw [hxid, hid', hid, ht] at hfind
      rw [hsame, ht] at ht'
      obtain rfl := Option.some.inj ht'
      obtain rfl := Option.some.inj hfind
      obtain rfl : b = a := h.coherent.eq_of_id hb ha (hbid.trans haid.symm)
      refine ⟨b, hb, hbid, ?_, hs⟩
      by_contra hne
      have hlt := Nat.lt_of_le_of_ne (h.coherent.number_bounds hb).2 hne
      rw [h.routed b hb hdec hlt] at hflag
      cases hflag
    · rw [hxid, hid', hid] at hfind hfind'
      obtain rfl := Option.some.inj (ht.symm.trans hfind)
      obtain rfl := Option.some.inj (ht'.symm.trans hfind')
      have hundecided : ∃ a ∈ t.attempts, a.id = x.2 ∧ a.success = none := by
        rcases hwho with hwho | ⟨j, rd, he, hrd, htask, hpass, hrid⟩
        · exact hwho
        · subst he
          obtain ⟨a, ha, hnone, haid, -⟩ := h.reaped_undecided hrd htask hpass (hid ▸ hp) hord
          exact ⟨a, ha, haid.trans hrid, hnone⟩
      obtain ⟨a, ha, haid, hnone⟩ := hundecided
      rw [← haid] at hres ⊢
      exact h.decidedBy_resolved ha hnone hn.coherent hres hb (hbid.trans haid.symm) hs

end Firm

/-- What processes hold names rows that were created. -/
structure Known (l : Lifecycle) : Prop where
  reads : ∀ rd ∈ l.reads, rd.task < l.store.nextId ∧ rd.row.id < l.store.nextId
  due : ∀ x ∈ l.due, x.1.id < l.store.nextId ∧ x.2 < l.store.nextId

theorem Known.next (h : l.Known) (hd : l.store.Distinct) (hstep : l.step limit env e = some l') :
    l'.Known := by
  have hle := step_nextId hstep
  have hd' := (step_rows hd hstep).1
  refine ⟨?_, ?_⟩
  · intro rd hrd
    rcases step_reads hstep hrd with hold | ⟨c, -, t, hf, hc, -⟩
    · obtain ⟨h₁, h₂⟩ := h.reads rd hold
      exact ⟨Nat.lt_of_lt_of_le h₁ hle, Nat.lt_of_lt_of_le h₂ hle⟩
    · obtain ⟨ht, hid, ha, -⟩ := find_eq_some hf
      obtain ⟨h₁, h₂⟩ := hd.bound t ht
      have hid : t.id = c.task := hid
      rw [hc, ← hid]
      exact ⟨Nat.lt_of_lt_of_le h₁ hle, Nat.lt_of_lt_of_le (h₂ _ ha).1 hle⟩
  · intro x hx
    rcases step_due hd hstep hx with hold | ⟨a, hfind, -, ha, haid, -⟩ | ⟨t, number, hfind, hfind', -, -, hwho⟩
    · obtain ⟨h₁, h₂⟩ := h.due x hold
      exact ⟨Nat.lt_of_lt_of_le h₁ hle, Nat.lt_of_lt_of_le h₂ hle⟩
    · obtain ⟨h₁, h₂⟩ := hd.bound x.1 (TaskStore.task?_eq_some hfind).1
      rw [← haid]
      exact ⟨Nat.lt_of_lt_of_le h₁ hle, Nat.lt_of_lt_of_le (h₂ a ha).1 hle⟩
    · refine ⟨(hd'.bound x.1 (TaskStore.task?_eq_some hfind').1).1, ?_⟩
      rcases hwho with ⟨a, ha, haid, -⟩ | ⟨j, rd, -, hrd, -, -, hrid⟩
      · rw [← haid]
        exact Nat.lt_of_lt_of_le ((hd.bound t (TaskStore.task?_eq_some hfind).1).2 a ha).1 hle
      · rw [← hrid]
        exact Nat.lt_of_lt_of_le (h.reads rd (List.mem_of_getElem? hrd)).2 hle

theorem reach_known (h : (lifecycleSystem limit).Reach l) : l.Known := by
  apply h.invariant_of (fun l => l.store.Distinct) Known
  · exact fun l hl => reach_distinct hl
  · rintro l rfl
    exact ⟨fun rd hrd => absurd hrd List.not_mem_nil, fun x hx => absurd hx List.not_mem_nil⟩
  · rintro l ⟨e, env⟩ l' hd hl - hstep
    exact hl.next hd hstep

/-- A task just created is found, and firm. -/
theorem firm_created (hk : l.Known) (hd : l.store.Distinct) (metadata : QraftTask)
    (cluster : Option String) (env : Env) :
    ∃ t, (l.createAndEnqueue metadata cluster env).store.task? l.store.nextId = some t ∧
      Firm (l.createAndEnqueue metadata cluster env) t := by
  have hc := created_enqueued metadata cluster none l.store.nextId env
  have hd' := (step_rows hd (step_asyncTask 0 l metadata cluster env)).1
  have hmem : metadata.enqueued cluster none l.store.nextId env ∈
      (l.createAndEnqueue metadata cluster env).store.tasks := List.mem_append_right _ List.mem_cons_self
  refine ⟨_, hc.id ▸ hd'.task?_of_mem hmem, hc.coherent, ?_, ?_, ?_⟩
  · intro a ha hdec
    rw [List.mem_singleton.mp ha] at hdec
    exact absurd rfl hdec
  · intro rd hrd hid
    exact absurd (hid.trans hc.id) (Nat.ne_of_lt (hk.reads rd hrd).1)
  · intro x hx hid
    exact absurd (hid.trans hc.id) (Nat.ne_of_lt (hk.due x hx).1)

end

end Lifecycle
end Qraft
