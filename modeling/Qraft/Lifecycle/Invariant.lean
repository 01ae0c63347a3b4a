import Qraft.Lifecycle.Effects

/-! Every task of every run is coherent, as long as no requeue and no reap acts on what it
read before the task moved on. -/
namespace Qraft
open AttemptHistory QraftTask

namespace QraftTask

/-- A task row before and after a step, which is a requeue's or is not. -/
structure Next (requeued : Bool) (newId : AttemptId) (t t' : QraftTask) : Prop where
  extension : Extends newId t t'
  coherent : t'.Coherent
  move : Move requeued t t'

theorem Extends.id_eq {newId : AttemptId} {t t' : QraftTask} (h : Extends newId t t') : t'.id = t.id := by
  rw [h.frame]

theorem Next.refl {rq : Bool} {t : QraftTask} (newId : AttemptId) (h : t.Coherent) : Next rq newId t t :=
  ⟨.refl newId t, h, .step (.stay _)⟩

/-- A write to other columns of some attempts. -/
theorem Next.quiet {rq : Bool} {t t' : QraftTask} {newId : AttemptId} (h : t.Coherent)
    {f : QraftTaskAttempt → QraftTaskAttempt} (hf : ∀ a ∈ t.attempts, SameRow a (f a))
    (ht : t' = { t with attempts := t.attempts.map f }) : Next rq newId t t' := by
  have hq : t'.Coherent ∧ t'.history = t.history := h.quiet hf (by rw [ht]) (by rw [ht])
  refine ⟨⟨by rw [ht], [], ?_, by simp⟩, hq.1, .step (hq.2 ▸ .stay _)⟩
  rw [ht, List.map_map, List.append_nil]
  apply List.map_congr_left
  intro a ha
  simp only [Function.comp, (hf a ha).1, (hf a ha).2.1]

theorem Next.updateAttempt {rq : Bool} {t : QraftTask} {newId : AttemptId} (h : t.Coherent) (id : AttemptId)
    {f : QraftTaskAttempt → QraftTaskAttempt} (hf : ∀ a, SameRow a (f a)) :
    Next rq newId t (t.updateAttempt id f) := by
  obtain ⟨hc, hh⟩ := h.updateAttempt id hf
  exact ⟨Extends.updateAttempt newId t id (fun a => (hf a).1) fun a => (hf a).2.1, hc,
    .step (hh ▸ .stay _)⟩

theorem Next.commitOutput {rq : Bool} {t : QraftTask} {newId : AttemptId} (h : t.Coherent) (id : AttemptId)
    (now : Time) : Next rq newId t (t.commitOutput id now) :=
  .updateAttempt h id fun _ => ⟨rfl, rfl, rfl, rfl, rfl, rfl⟩

theorem Next.markRouted {rq : Bool} {t : QraftTask} {newId : AttemptId} (h : t.Coherent) (id : AttemptId) :
    Next rq newId t (t.markRouted id) := .updateAttempt h id fun _ => ⟨rfl, rfl, rfl, rfl, rfl, rfl⟩

theorem Next.of_resolved {rq : Bool} {t t' : QraftTask} {a : QraftTaskAttempt} {newId : AttemptId} {now : Time}
    {routing : Routing} (h : Resolved t a.id a.attemptNumber newId now t' routing) (hc : t.Coherent)
    (ha : a ∈ t.attempts) (hn : a.success = none) (hq : a.q2TaskId ≠ none)
    (hid : ∀ b ∈ t.attempts, b.id ≠ newId) : Next rq newId t t' :=
  have hres := h.coherent hc ha hn hq hid
  ⟨h.extends, hres.1, .step hres.2⟩

/-- `order_by("-attempt_number").first()` of a coherent task. -/
theorem Coherent.latestAttempt_eq {t : QraftTask} (h : t.Coherent) :
    ∃ a ∈ t.attempts, t.latestAttempt = some a ∧ a.attemptNumber = t.attempts.length ∧
      a.success = t.status.verdict ∧ (a.state = .scheduled ↔ t.status = .pending) := by
  obtain ⟨done, a, hl, hd, hv, hst, hq⟩ := h.latest
  have ha : a ∈ t.attempts := by simp [hl]
  have hnum : a.attemptNumber = t.attempts.length := by
    have hi : t.attempts[done.length]? = some a := by simp [hl]
    rw [h.number_of_getElem? hi]
    simp [hl]
  refine ⟨a, ha, ?_, hnum, hv, hst⟩
  cases hm : t.latestAttempt with
  | none => exact absurd (List.argmax_eq_none.mp hm) h.ne_nil
  | some b =>
    have hb : b ∈ t.attempts := List.argmax_mem hm
    have hle : a.attemptNumber ≤ b.attemptNumber := List.le_of_mem_argmax ha hm
    have hub := (h.number_bounds hb).2
    rw [h.eq_of_number hb ha (by omega)]

/-- Nothing claimed is ever left without a message, so there is nothing to re-arm. -/
theorem Coherent.rearm_eq {t : QraftTask} (h : t.Coherent) (cutoff : Time) : t.rearm cutoff = t := by
  have hrows : (t.rearm cutoff).attempts = t.attempts := by
    apply Rows.updateWhere_eq_self
    intro a ha hp
    simp only [Bool.and_eq_true, decide_eq_true_eq, Option.isNone_iff_eq_none] at hp
    obtain ⟨-, -, hst, hq, -⟩ := h.undecided ha hp.1.2
    rw [hst.mpr (hq.mp hp.1.1.2)] at hp
    simp at hp
  calc t.rearm cutoff = { t with attempts := (t.rearm cutoff).attempts } := rfl
    _ = t := by rw [hrows]

end QraftTask

namespace TaskStore

structure Created (newId : Nat) (t : QraftTask) : Prop where
  id : t.id = newId
  coherent : t.Coherent
  single : t.attempts.length = 1

structure Evolves (rq : Bool) (st st' : TaskStore) : Prop where
  kept : ∀ t ∈ st.tasks, ∃ t' ∈ st'.tasks, Next rq st.nextId t t'
  origin : ∀ t' ∈ st'.tasks, (∃ t ∈ st.tasks, Next rq st.nextId t t') ∨ Created st.nextId t'

/-- Ids are keys, and all of them are spent. -/
structure Keyed (st : TaskStore) : Prop where
  ids : (st.tasks.map fun t => t.id).Nodup
  bound : ∀ t ∈ st.tasks, t.id < st.nextId ∧ ∀ a ∈ t.attempts, a.id < st.nextId

namespace Keyed
variable {rq : Bool} {st : TaskStore}

theorem eq_of_id (h : st.Keyed) {t u : QraftTask} (ht : t ∈ st.tasks) (hu : u ∈ st.tasks)
    (hid : t.id = u.id) : t = u := Rows.eq_of_key_eq h.ids ht hu hid

theorem fresh_id (h : st.Keyed) {t : QraftTask} (ht : t ∈ st.tasks) :
    ∀ a ∈ t.attempts, a.id ≠ st.nextId := fun a ha => Nat.ne_of_lt ((h.bound t ht).2 a ha)

/-- All rows are rewritten in place. -/
theorem map (h : st.Keyed) {st' : TaskStore} {g : QraftTask → QraftTask}
    (hg : ∀ t ∈ st.tasks, Next rq st.nextId t (g t) ∧
      ∀ a' ∈ (g t).attempts, ∃ a ∈ t.attempts, a.id = a'.id)
    (ht : st'.tasks = st.tasks.map g) (hn : st'.nextId = st.nextId) :
    st'.Keyed ∧ Evolves rq st st' := by
  have hids : (st'.tasks.map fun t => t.id) = st.tasks.map fun t => t.id := by
    rw [ht, List.map_map]
    exact List.map_congr_left fun t hm => (hg t hm).1.extension.id_eq
  refine ⟨⟨hids ▸ h.ids, ?_⟩, ?_, ?_⟩
  · intro t' ht'
    rw [ht] at ht'
    obtain ⟨t, hm, rfl⟩ := List.mem_map.mp ht'
    rw [hn, (hg t hm).1.extension.id_eq]
    refine ⟨(h.bound t hm).1, fun a' ha' => ?_⟩
    obtain ⟨a, ha, hid⟩ := (hg t hm).2 a' ha'
    exact hid ▸ (h.bound t hm).2 a ha
  · exact fun t hm => ⟨g t, ht ▸ List.mem_map_of_mem hm, (hg t hm).1⟩
  · intro t' ht'
    rw [ht] at ht'
    obtain ⟨t, hm, rfl⟩ := List.mem_map.mp ht'
    exact .inl ⟨t, hm, (hg t hm).1⟩

theorem same (h : st.Keyed) (hc : ∀ t ∈ st.tasks, t.Coherent) {st' : TaskStore} (hs : st' = st) :
    st'.Keyed ∧ Evolves rq st st' := by
  subst hs
  apply h.map (g := fun t => t) _ (List.map_id' _).symm rfl
  exact fun t ht => ⟨.refl _ (hc t ht), fun a' ha' => ⟨a', ha', rfl⟩⟩

/-- One row is written back. -/
theorem save (h : st.Keyed) (hc : ∀ t ∈ st.tasks, t.Coherent) {t t' : QraftTask} (ht : t ∈ st.tasks)
    (hn : Next rq st.nextId t t') : (st.save t').fresh.Keyed ∧ Evolves rq st (st.save t').fresh := by
  have hid := hn.extension.id_eq
  have hmem := mem_save h.ids ht hid
  refine ⟨⟨?_, ?_⟩, ?_, ?_⟩
  · rw [ids_save]
    exact h.ids
  · intro r hr
    rw [fresh_nextId, save_nextId]
    rcases (hmem r).mp hr with ⟨hr, _⟩ | rfl
    · obtain ⟨h₁, h₂⟩ := h.bound r hr
      exact ⟨Nat.lt_succ_of_lt h₁, fun a ha => Nat.lt_succ_of_lt (h₂ a ha)⟩
    · refine ⟨hid ▸ Nat.lt_succ_of_lt (h.bound t ht).1, fun a ha => ?_⟩
      rcases hn.extension.mem_inv ha with he | ⟨b, hb, he⟩
      · exact he ▸ Nat.lt_succ_self _
      · exact he ▸ Nat.lt_succ_of_lt ((h.bound t ht).2 b hb)
  · intro u hu
    by_cases he : u = t
    · exact ⟨t', (hmem t').mpr (.inr rfl), he ▸ hn⟩
    · exact ⟨u, (hmem u).mpr (.inl ⟨hu, he⟩), .refl _ (hc u hu)⟩
  · intro r hr
    rcases (hmem r).mp hr with ⟨hr, _⟩ | rfl
    · exact .inl ⟨r, hr, .refl _ (hc r hr)⟩
    · exact .inl ⟨t, ht, hn⟩

/-- A row is inserted under the next id. -/
theorem insert (h : st.Keyed) (hc : ∀ t ∈ st.tasks, t.Coherent) {t : QraftTask} {n : Nat}
    (ht : Created st.nextId t) (hn : st.nextId < n) (ha : ∀ a ∈ t.attempts, a.id < n) :
    TaskStore.Keyed { tasks := st.tasks ++ [t], nextId := n } ∧
      Evolves rq st { tasks := st.tasks ++ [t], nextId := n } := by
  refine ⟨⟨?_, ?_⟩, ?_, ?_⟩
  · rw [List.map_append, List.nodup_append]
    refine ⟨h.ids, by simp, ?_⟩
    intro x hx y hy
    obtain ⟨u, hu, rfl⟩ := List.mem_map.mp hx
    rw [List.map_singleton, List.mem_singleton, ht.id] at hy
    exact hy ▸ Nat.ne_of_lt (h.bound u hu).1
  · intro u hu
    rw [List.mem_append, List.mem_singleton] at hu
    rcases hu with hu | rfl
    · obtain ⟨h₁, h₂⟩ := h.bound u hu
      exact ⟨Nat.lt_trans h₁ hn, fun a ha => Nat.lt_trans (h₂ a ha) hn⟩
    · exact ⟨ht.id ▸ hn, ha⟩
  · exact fun u hu => ⟨u, List.mem_append_left _ hu, .refl _ (hc u hu)⟩
  · intro u hu
    rw [List.mem_append, List.mem_singleton] at hu
    rcases hu with hu | rfl
    · exact .inl ⟨u, hu, .refl _ (hc u hu)⟩
    · exact .inr ht

end Keyed
end TaskStore

namespace Lifecycle

/-- The insert of a requeue finds its task decided. -/
def requeueInOrder (l : Lifecycle) (i : Nat) : Bool :=
  (l.requeues[i]?.bind fun r => l.store.task? r.task).all fun t =>
    t.status ≠ .pending ∧ t.status ≠ .running

/-- A reap that passes its re-checks finds the attempt it read still undecided. -/
def reapInOrder (l : Lifecycle) (i : Nat) : Bool :=
  (l.reads[i]?.bind fun rd => (l.store.task? rd.task).map (rd, ·)).all fun (rd, t) =>
    !t.reapable rd.row rd.heartbeatCutoff (l.q2Row rd.row) ||
      t.attempts.all fun a => a.id ≠ rd.row.id || a.success = none

def inOrder (l : Lifecycle) : LifecycleEvent → Bool
  | .requeueCommit i => l.requeueInOrder i
  | .reap i => l.reapInOrder i
  | _ => true

/-- No requeue and no reap acts on what it read before its task moved on. -/
def InOrder (l : Lifecycle) (e : LifecycleEvent × Env) : Prop := l.inOrder e.1 = true

instance (l : Lifecycle) (e : LifecycleEvent × Env) : Decidable (l.InOrder e) :=
  inferInstanceAs (Decidable (_ = true))

theorem reapInOrder_undecided {l : Lifecycle} {i : Nat} {rd : ReaperRead} {t : QraftTask}
    (h : l.reapInOrder i = true) (hrd : l.reads[i]? = some rd) (ht : l.store.task? rd.task = some t)
    (hp : t.reapable rd.row rd.heartbeatCutoff (l.q2Row rd.row) = true) :
    ∀ a ∈ t.attempts, a.id = rd.row.id → a.success = none := by
  intro a ha hid
  simp only [reapInOrder, hrd, ht, Option.bind_some, Option.map_some, Option.all_some, hp,
    Bool.not_true, Bool.false_or, List.all_eq_true] at h
  simpa [hid] using h a ha

/-- What holds between steps: coherent tasks, and processes that know numbers and ids of
attempts there are. -/
structure Sound (l : Lifecycle) : Prop where
  keyed : l.store.Keyed
  coherent : ∀ t ∈ l.store.tasks, t.Coherent
  requeues : ∀ r ∈ l.requeues, ∃ t ∈ l.store.tasks, t.id = r.task ∧ 1 ≤ r.attemptNumber ∧
    r.attemptNumber ≤ t.attempts.length + 1
  reads : ∀ rd ∈ l.reads, ∃ t ∈ l.store.tasks, t.id = rd.task ∧
    ∃ a ∈ t.attempts, a.id = rd.row.id ∧ a.attemptNumber = rd.row.attemptNumber

/-- The rows of an enqueue are coherent. -/
theorem created_enqueued (metadata : QraftTask) (cluster trace : Option String) (id : Nat)
    (env : Env) : TaskStore.Created id (metadata.enqueued cluster trace id env) := by
  refine ⟨rfl, ⟨rfl, by simp [QraftTask.enqueued], [], _, rfl, by simp, rfl, ?_, ?_⟩, rfl⟩
  · exact iff_of_false (by simp) (by simp [QraftTask.enqueued])
  · exact iff_of_false (by simp) (by simp [QraftTask.enqueued])

/-- So are those of a task created with its first attempt scheduled. -/
theorem created_scheduled {t t' : QraftTask} {id : Nat} {notBefore : Time}
    {cluster : Option String} {now : Time} (hid : t.id = id) (hnone : t.attempts = [])
    (h : t.scheduleAttempt (id + 1) 1 notBefore cluster now = .ok t') :
    TaskStore.Created id t' ∧ ∀ a ∈ t'.attempts, a.id = id + 1 := by
  obtain ⟨_, a, ha, hn, hst, hsu, hq, -, rfl⟩ := scheduleAttempt_ok h
  refine ⟨⟨hid, ⟨?_, ?_, [], a, ?_, by simp, hsu, iff_of_true hst rfl, iff_of_true hq rfl⟩, ?_⟩, ?_⟩
  · simp [hnone, hn]
  · simp [hnone]
  · simp [hnone]
  · simp [hnone]
  · simp [hnone, ha]

/-- The row a step writes back moves by one step of its history, when what the reaper or the
requeue knows of the task is true of it. -/
theorem TaskMove.next_of {l : Lifecycle} {e : LifecycleEvent} {env : Env} {t t' : QraftTask}
    (hc : t.Coherent) (hfresh : ∀ a ∈ t.attempts, a.id ≠ l.store.nextId)
    (hreads : ∀ rd ∈ l.reads, l.store.task? rd.task = some t →
      ∃ a ∈ t.attempts, a.id = rd.row.id ∧ a.attemptNumber = rd.row.attemptNumber)
    (hrequeues : ∀ i, e = .requeueCommit i → ∀ r ∈ l.requeues, l.store.task? r.task = some t →
      1 ≤ r.attemptNumber ∧ r.attemptNumber ≤ t.attempts.length + 1)
    (hord : l.InOrder (e, env)) (hm : TaskMove l env e t t') : Next e.isRequeue l.store.nextId t t' := by
  cases hm with
  | claimed hok =>
    obtain ⟨hp, hc', hh⟩ := hc.claimed hok
    refine ⟨.claimAndEnqueue hok, hc', .step ?_⟩
    rw [hh, show t.history = ⟨t.history.past, .waiting⟩ by rw [history, hp]; rfl]
    exact .start _
  | published => exact .commitOutput hc _ env.now
  | routed _ _ => exact .markRouted hc _
  | @result i r a _ _ routing hr ha hq hok =>
    rcases handleResult_ok hok with ⟨he, _⟩ | ⟨b, hb, hid, hn, hres⟩
    · cases he
      exact .refl _ hc
    · obtain rfl : b = a := hc.eq_of_id hb ha hid
      exact .of_resolved hres hc ha hn (by simp [hq]) hfresh
  | @reaped i rd _ _ routing hrd htask hpass hok =>
    obtain ⟨a, ha, haid, hnum⟩ := hreads rd (List.mem_of_getElem? hrd) htask
    have hn := reapInOrder_undecided hord hrd htask hpass a ha haid
    have hrun : t.status = .running := by
      simp only [reapable, Bool.and_eq_true, decide_eq_true_eq] at hpass
      exact hpass.1.1.2
    have hq : a.q2TaskId ≠ none := by
      intro hq
      have hp := (hc.undecided ha hn).2.2.2.1.mp hq
      rw [hrun] at hp
      cases hp
    have hres := reap_ok hrun hok
    rw [← haid, ← hnum] at hres
    exact .of_resolved hres hc ha hn hq hfresh
  | @requeued i r _ _ hr htask hok =>
    have hord : l.requeueInOrder i = true := hord
    have hv : t.status.verdict ≠ none := by
      simp only [requeueInOrder, hr, htask, Option.bind_some, Option.all_some,
        decide_eq_true_eq] at hord
      cases hs : t.status <;> simp_all [TaskStatus.verdict]
    obtain ⟨hpos, hle⟩ := hrequeues i rfl r (List.mem_of_getElem? hr) htask
    obtain ⟨-, hc', hh⟩ := hc.scheduled hv hfresh hle hpos hok
    exact ⟨.scheduleAttempt hok, hc', .reopen rfl hv hh⟩

theorem TaskMove.next {l : Lifecycle} (h : l.Sound) {e : LifecycleEvent} {env : Env} {t t' : QraftTask}
    (ht : t ∈ l.store.tasks) (hord : l.InOrder (e, env)) (hm : TaskMove l env e t t') :
    Next e.isRequeue l.store.nextId t t' := by
  refine hm.next_of (h.coherent t ht) (h.keyed.fresh_id ht) ?_ ?_ hord
  · intro rd hrd htask
    obtain ⟨hmem, hid⟩ := TaskStore.task?_eq_some htask
    obtain ⟨u, hu, huid, a, ha, haid, hnum⟩ := h.reads rd hrd
    obtain rfl : u = t := h.keyed.eq_of_id hu ht (huid.trans hid.symm)
    exact ⟨a, ha, haid, hnum⟩
  · intro _ _ r hr htask
    obtain ⟨hmem, hid⟩ := TaskStore.task?_eq_some htask
    obtain ⟨u, hu, huid, hpos, hle⟩ := h.requeues r hr
    obtain rfl : u = t := h.keyed.eq_of_id hu ht (huid.trans hid.symm)
    exact ⟨hpos, hle⟩

/-- A lease write leaves a coherent task's history alone. -/
theorem next_leased {t : QraftTask} (h : t.Coherent) (rq : Bool) (newId : AttemptId) (limit : Nat)
    (q : Q2TaskId) (w : LeaseWrite) (now : Time) :
    Next rq newId t (t.updateMessage q (w.selects limit) (w.write now)) ∧
      ∀ a' ∈ (t.updateMessage q (w.selects limit) (w.write now)).attempts,
        ∃ a ∈ t.attempts, a.id = a'.id := by
  refine ⟨.quiet h (f := fun a => if (a.q2TaskId = some q && w.selects limit a) = true
    then w.write now a else a) ?_ rfl, ?_⟩
  · intro a _
    split
    · cases w <;> exact ⟨rfl, rfl, rfl, rfl, rfl, rfl⟩
    · exact ⟨rfl, rfl, rfl, rfl, rfl, rfl⟩
  · intro a' ha'
    obtain ⟨a, ha, rfl⟩ := Rows.mem_updateWhere.mp ha'
    refine ⟨a, ha, ?_⟩
    split
    · cases w <;> rfl
    · rfl

/-- What an accepted step, in order, makes of the rows of a sound state. -/
theorem RowEffect.evolves {limit : Nat} {l : Lifecycle} (h : l.Sound) {e : LifecycleEvent} {env : Env}
    {st : TaskStore} (hord : l.InOrder (e, env)) (he : RowEffect limit l env e st) :
    st.Keyed ∧ TaskStore.Evolves e.isRequeue l.store st := by
  cases he with
  | idle => exact h.keyed.same h.coherent rfl
  | leased q w =>
    refine h.keyed.map (g := fun t => t.updateMessage q (w.selects limit) (w.write env.now)) ?_ rfl rfl
    exact fun t ht => next_leased (h.coherent t ht) _ _ limit q w env.now
  | rearmed cutoff =>
    apply h.keyed.same h.coherent
    rw [List.map_congr_left fun t ht => (h.coherent t ht).rearm_eq cutoff, List.map_id']
  | written ht hm => exact h.keyed.save h.coherent ht (hm.next h ht hord)
  | enqueued metadata cluster trace =>
    apply h.keyed.insert h.coherent (created_enqueued metadata cluster trace _ env)
    · exact Nat.lt_add_of_pos_right (by decide)
    · simp [QraftTask.enqueued]
  | scheduled hok =>
    obtain ⟨hc, hids⟩ := created_scheduled rfl rfl hok
    apply h.keyed.insert h.coherent hc
    · exact Nat.lt_add_of_pos_right (by decide)
    · intro a ha
      rw [hids a ha]
      exact Nat.lt_succ_self _

/-- An accepted step, in order, keeps a state sound. -/
theorem Sound.next {limit : Nat} {l l' : Lifecycle} (h : l.Sound) {e : LifecycleEvent} {env : Env}
    (hord : l.InOrder (e, env)) (hstep : l.step limit env e = some l') : l'.Sound := by
  obtain ⟨hkeyed, hkept, horigin⟩ := (step_effect hstep).evolves h hord
  refine ⟨hkeyed, ?_, ?_, ?_⟩
  · intro t' ht'
    rcases horigin t' ht' with ⟨t, _, hn⟩ | hc
    · exact hn.coherent
    · exact hc.coherent
  · intro r hr
    have hold : ∃ t ∈ l.store.tasks, t.id = r.task ∧ 1 ≤ r.attemptNumber ∧
        r.attemptNumber ≤ t.attempts.length + 1 := by
      rcases step_requeues hstep hr with hr | ⟨t, ht, status, hok⟩
      · exact h.requeues r hr
      · unfold QraftTask.requeueCheck at hok
        split at hok
        · cases hok
        · cases hok
          obtain ⟨a, _, hla, hnum, _⟩ := (h.coherent t ht).latestAttempt_eq
          exact ⟨t, ht, rfl, by simp, by simp [hla, hnum]⟩
    obtain ⟨t, ht, hid, h₁, h₂⟩ := hold
    obtain ⟨t', ht', hn⟩ := hkept t ht
    have hlen := hn.extension.length_le
    exact ⟨t', ht', hn.extension.id_eq.trans hid, h₁, by omega⟩
  · intro rd hrd
    have hold : ∃ t ∈ l.store.tasks, t.id = rd.task ∧
        ∃ a ∈ t.attempts, a.id = rd.row.id ∧ a.attemptNumber = rd.row.attemptNumber := by
      rcases step_reads hstep hrd with hrd | ⟨c, _, t, hf, hid, _⟩
      · exact h.reads rd hrd
      · obtain ⟨ht, htid, ha, _⟩ := find_eq_some hf
        exact ⟨t, ht, htid.trans hid.symm, rd.row, ha, rfl, rfl⟩
    obtain ⟨t, ht, hid, a, ha, hia, hna⟩ := hold
    obtain ⟨t', ht', hn⟩ := hkept t ht
    obtain ⟨a', ha', hia', hna'⟩ := hn.extension.mem ha
    exact ⟨t', ht', hn.extension.id_eq.trans hid, a', ha', hia'.trans hia, hna'.trans hna⟩

end Lifecycle
end Qraft
