import Qraft.Enqueue.Effects

/-! One live task for an idempotency key, whatever calls race for it. -/
namespace Qraft
open QraftTask

namespace Lifecycle
variable {limit : Nat} {l l' : Lifecycle} {env : Env} {e : LifecycleEvent}

def newKey (e : LifecycleEvent) : Option String := (createdBy e).bind fun m => m.idempotencyKey

/-- No step writes a key on a task that was there. -/
theorem step_keys (hd : l.store.Distinct) (hstep : l.step limit env e = some l') {t' : QraftTask}
    (ht' : t' ∈ l'.store.tasks) :
    (∃ t ∈ l.store.tasks, t.id = t'.id ∧ t.idempotencyKey = t'.idempotencyKey) ∨
      (t'.id = l.store.nextId ∧ t'.idempotencyKey = newKey e) := by
  rcases step_frame hd hstep ht' with ⟨t, ht, he⟩ | ⟨m, hm, hid, he⟩
  · refine .inl ⟨t, ht, ?_, ?_⟩
    · rw [he]
    · rw [he]
  · refine .inr ⟨hid, ?_⟩
    rw [newKey, hm, he]
    rfl

end Lifecycle

namespace Enqueueing

/-- A task that was created under a key holds it, unless it died and gave it up. -/
def Keeps (key : String) (t : QraftTask) : Prop :=
  t.idempotencyKey = some key ∨ (t.idempotencyKey = none ∧ t.status.Dead)

/-- The tasks of a table and the keys they were created under. -/
structure KeyTable (l : Lifecycle) (keyed : List KeyedTask) : Prop where
  distinct : l.store.Distinct
  known : l.Known
  owned : ∀ c ∈ keyed, ∃ t, l.store.task? c.task = some t ∧ Lifecycle.Firm l t ∧ Keeps c.key t
  held : ∀ t ∈ l.store.tasks, ∀ key, t.idempotencyKey = some key → ⟨key, t.id⟩ ∈ keyed
  single : ∀ t ∈ l.store.tasks, ∀ u ∈ l.store.tasks, ∀ key, t.idempotencyKey = some key →
    u.idempotencyKey = some key → t.id = u.id

/-- Whether an event leaves the tasks created under keys in order: no requeue of one of them, no
reap on a superseded read. -/
def undisturbed (l : Lifecycle) (keyed : List KeyedTask) (e : LifecycleEvent) : Bool :=
  l.orderlyFor (fun id => keyed.any fun c => c.task = id) e

namespace KeyTable
variable {limit : Nat} {l l' : Lifecycle} {env : Env} {e : LifecycleEvent} {keyed : List KeyedTask}

/-- What was created under a key is as firm after a step, and keeps its key as it did. -/
private theorem owned_step (h : KeyTable l keyed) (hstep : l.step limit env e = some l')
    (hord : undisturbed l keyed e = true) :
    ∀ c ∈ keyed, ∃ t, l'.store.task? c.task = some t ∧ Lifecycle.Firm l' t ∧ Keeps c.key t := by
  intro c hc
  obtain ⟨t, ht, hfirm, hkeeps⟩ := h.owned c hc
  have hp : (keyed.any fun d => d.task = c.task) = true :=
    List.any_eq_true.mpr ⟨c, hc, decide_eq_true rfl⟩
  obtain ⟨t', ht', hfirm', hnext⟩ := hfirm.next h.distinct hstep ht hp hord
  have hkey : t'.idempotencyKey = t.idempotencyKey := by rw [hnext.extension.frame]
  refine ⟨t', ht', hfirm', ?_⟩
  rcases hkeeps with hheld | ⟨hnone, hdead⟩
  · exact .inl (hkey.trans hheld)
  · exact .inr ⟨hkey.trans hnone, Lifecycle.dead_next hfirm.coherent hdead hnext⟩

theorem step (h : KeyTable l keyed) (hstep : l.step limit env e = some l')
    (hord : undisturbed l keyed e = true) (hnew : Lifecycle.newKey e = none) : KeyTable l' keyed := by
  refine ⟨(Lifecycle.step_rows h.distinct hstep).1, h.known.next h.distinct hstep,
    h.owned_step hstep hord, ?_, ?_⟩
  · intro t' ht' key hkey
    rcases Lifecycle.step_keys h.distinct hstep ht' with ⟨t, ht, hid, hk⟩ | ⟨-, hk⟩
    · rw [← hid]
      exact h.held t ht key (hk.trans hkey)
    · rw [hk, hnew] at hkey
      cases hkey
  · intro t' ht' u' hu' key hkt hku
    rcases Lifecycle.step_keys h.distinct hstep ht' with ⟨t, ht, hid, hk⟩ | ⟨-, hk⟩
    · rcases Lifecycle.step_keys h.distinct hstep hu' with ⟨u, hu, hid', hk'⟩ | ⟨-, hk'⟩
      · rw [← hid, ← hid']
        exact h.single t ht u hu key (hk.trans hkt) (hk'.trans hku)
      · rw [hk', hnew] at hku
        cases hku
    · rw [hk, hnew] at hkt
      cases hkt

/-- A task inserted under a key nobody holds. -/
theorem created (h : KeyTable l keyed) (m : QraftTask) (cluster : Option String) (env : Env)
    (hfree : ∀ key, m.idempotencyKey = some key → l.store.keyHolder? key = none) :
    KeyTable (l.createAndEnqueue m cluster env)
      (keyed ++ m.idempotencyKey.toList.map (⟨·, l.store.nextId⟩)) := by
  have hstep := Lifecycle.step_asyncTask 0 l m cluster env
  have hkeys (t : QraftTask) (ht : t ∈ (l.createAndEnqueue m cluster env).store.tasks) :=
    Lifecycle.step_keys h.distinct hstep ht
  have free {key : String} (hk : m.idempotencyKey = some key) {t : QraftTask} (ht : t ∈ l.store.tasks) :
      t.idempotencyKey ≠ some key := by
    have hnone := List.find?_eq_none.mp (hfree key hk) t ht
    exact fun he => hnone (decide_eq_true he)
  obtain ⟨n, hn, hfirm⟩ := Lifecycle.firm_created h.known h.distinct m cluster env
  refine ⟨(Lifecycle.step_rows h.distinct hstep).1, h.known.next h.distinct hstep, ?_, ?_, ?_⟩
  · intro c hc
    rcases List.mem_append.mp hc with hc | hc
    · exact h.owned_step hstep rfl c hc
    · obtain ⟨key, hkey, rfl⟩ := List.mem_map.mp hc
      have hkey : m.idempotencyKey = some key := Option.mem_toList.mp hkey
      refine ⟨n, hn, hfirm, .inl ?_⟩
      obtain ⟨hmem, hid⟩ := TaskStore.task?_eq_some hn
      rcases hkeys n hmem with ⟨t, ht, hid', -⟩ | ⟨-, hk⟩
      · exact absurd (hid'.trans hid) (Nat.ne_of_lt (h.distinct.bound t ht).1)
      · exact hk.trans hkey
  · intro t' ht' key hkey
    rcases hkeys t' ht' with ⟨t, ht, hid, hk⟩ | ⟨hid, hk⟩
    · rw [← hid]
      exact List.mem_append_left _ (h.held t ht key (hk.trans hkey))
    · rw [hid]
      refine List.mem_append_right _ (List.mem_map.mpr ⟨key, ?_, rfl⟩)
      exact Option.mem_toList.mpr (hk.symm.trans hkey)
  · intro t' ht' u' hu' key hkt hku
    rcases hkeys t' ht' with ⟨t, ht, hid, hk⟩ | ⟨hid, hk⟩
    · rcases hkeys u' hu' with ⟨u, hu, hid', hk'⟩ | ⟨-, hk'⟩
      · rw [← hid, ← hid']
        exact h.single t ht u hu key (hk.trans hkt) (hk'.trans hku)
      · exact absurd (hk.trans hkt) (free (hk'.symm.trans hku) ht)
    · rcases hkeys u' hu' with ⟨u, hu, -, hk'⟩ | ⟨hid', -⟩
      · exact absurd (hk'.trans hku) (free (hk.symm.trans hkt) hu)
      · rw [hid, hid']

/-- A rewrite of labels that takes keys from dead tasks only. -/
theorem relabel (h : KeyTable l keyed) {f : QraftTask → QraftTask} (hf : Relabels f)
    (hkey : ∀ t, (f t).idempotencyKey = t.idempotencyKey ∨
      ((f t).idempotencyKey = none ∧ t.status.Dead)) : KeyTable (l.relabel f) keyed := by
  have hid : ∀ t, (f t).id = t.id := fun t => by rw [hf t]
  have hsame {t : QraftTask} {key : String} (hk : (f t).idempotencyKey = some key) :
      t.idempotencyKey = some key := by
    rcases hkey t with he | ⟨hn, -⟩
    · exact he.symm.trans hk
    · rw [hn] at hk
      cases hk
  refine ⟨Lifecycle.distinct_relabel hf h.distinct, Lifecycle.known_relabel h.known, ?_, ?_, ?_⟩
  · intro c hc
    obtain ⟨t, ht, hfirm, hkeeps⟩ := h.owned c hc
    refine ⟨f t, ?_, Lifecycle.firm_relabel hf hfirm, ?_⟩
    · rw [Lifecycle.task?_relabel hf, ht, Option.map_some]
    · have hstatus : (f t).status = t.status := by rw [hf t]
      rw [Keeps, hstatus]
      rcases hkey t with he | hdead
      · rw [he]
        exact hkeeps
      · exact .inr hdead
  · intro t' ht' key hk
    obtain ⟨t, ht, rfl⟩ := List.mem_map.mp ht'
    rw [hid]
    exact h.held t ht key (hsame hk)
  · intro t' ht' u' hu' key hkt hku
    obtain ⟨t, ht, rfl⟩ := List.mem_map.mp ht'
    obtain ⟨u, hu, rfl⟩ := List.mem_map.mp hu'
    rw [hid, hid]
    exact h.single t ht u hu key (hsame hkt) (hsame hku)

end KeyTable

def Sighted (keyed : List KeyedTask) (p : AsyncProcess) : Prop :=
  match p.phase with
  | .looking _ => truthy p.call.options.idempotencyKey = true
  | .found _ existing => ∃ key, p.call.options.idempotencyKey = some key ∧
      existing.idempotencyKey = some key ∧ ⟨key, existing.id⟩ ∈ keyed
  | .inserting metadata _ => metadata.idempotencyKey = p.call.options.idempotencyKey
  | .created task _ => ∀ key, p.call.options.idempotencyKey = some key → ⟨key, task⟩ ∈ keyed
  | _ => True

structure Keyed (s : Enqueueing) : Prop where
  table : KeyTable s.life s.keyed
  calls : ∀ p ∈ s.calls, Sighted s.keyed p

/-- Steps that leave the tasks created under keys in order. -/
def Undisturbed (s : Enqueueing) (e : EnqueueEvent × Env) : Prop :=
  match e.1 with
  | .table e => undisturbed s.life s.keyed e = true
  | _ => True

instance (s : Enqueueing) (e : EnqueueEvent × Env) : Decidable (Undisturbed s e) := by
  unfold Undisturbed
  split
  · infer_instance
  · infer_instance

section
variable {conf : RetryDefaults} {limit : Nat} {s s' : Enqueueing} {env : Env}

theorem newKey_foreign {e : LifecycleEvent} (h : foreign e = true) : Lifecycle.newKey e = none := by
  cases e with
  | asyncTask metadata cluster trace | scheduleTask metadata cluster =>
    simp only [foreign, Bool.and_eq_true, Option.isNone_iff_eq_none] at h
    exact h.1
  | _ => rfl

theorem nodeMetadata_key {g : GraphRows} {key : String} {r : QraftTask × Option String}
    (h : nodeMetadata conf g key env = .ok r) : r.1.idempotencyKey = none := by
  unfold nodeMetadata at h
  split at h
  · cases h
  · obtain ⟨policy, -, h⟩ := Transaction.bind_eq_ok.mp h
    cases h
    rfl

/-- The row a call inserts is created under the key of the call. -/
theorem metadata_key {c : AsyncCall} {graph? : GraphId → Option GraphRows}
    {r : QraftTask × Option String} (h : c.metadata conf graph? = .ok r) :
    r.1.idempotencyKey = c.options.idempotencyKey := by
  unfold AsyncCall.metadata at h
  split at h
  · cases h
  · obtain ⟨policy, -, h⟩ := Transaction.bind_eq_ok.mp h
    obtain ⟨⟨ty, id⟩, -, h⟩ := Transaction.bind_eq_ok.mp h
    obtain ⟨labels, -, h⟩ := Transaction.bind_eq_ok.mp h
    obtain ⟨cluster, -, h⟩ := Transaction.bind_eq_ok.mp h
    split at h
    · cases h
    · cases h
      rfl

theorem keyHolder?_eq_some {st : TaskStore} {key : String} {t : QraftTask}
    (h : st.keyHolder? key = some t) : t ∈ st.tasks ∧ t.idempotencyKey = some key := by
  have hsel := List.find?_some h
  exact ⟨List.mem_of_find?_eq_some h, of_decide_eq_true hsel⟩

theorem holderMessage_eq_some {st : TaskStore} {holder : TaskId} {q : Q2TaskId}
    (h : st.holderMessage holder = some q) :
    ∃ t, st.task? holder = some t ∧ ∃ a ∈ t.attempts, a.q2TaskId = some q := by
  obtain ⟨t, ht, h⟩ := Option.bind_eq_some_iff.mp h
  obtain ⟨a, ha, hq⟩ := Option.bind_eq_some_iff.mp h
  exact ⟨t, ht, a, (List.mem_filter.mp (List.argmax_mem ha)).1, hq⟩

theorem truthy_eq_true {x : Option String} (h : truthy x = true) : ∃ v, x = some v := by
  cases x with
  | none => cases h
  | some v => exact ⟨v, rfl⟩

/-- The record of keyed tasks only grows. -/
theorem step_keyed {e : EnqueueEvent} (h : s.step conf limit env e = some s') : s.keyed ⊆ s'.keyed := by
  have heff := step_table h
  generalize s'.life = life at heff
  generalize s'.keyed = keyed at heff
  cases heff with
  | same | moved | dispatched | unkeyed | filledIn => exact fun _ hc => hc
  | created => exact List.subset_append_left _ _

theorem Sighted.mono {keyed keyed' : List KeyedTask} {p : AsyncProcess} (h : Sighted keyed p)
    (hsub : keyed ⊆ keyed') : Sighted keyed' p := by
  unfold Sighted at h ⊢
  cases hp : p.phase with
  | called | preparing | returned | raised => trivial
  | looking caught | inserting metadata cluster =>
    simp only [hp] at h
    exact h
  | found caught existing =>
    simp only [hp] at h
    obtain ⟨key, hkey, hex, hmem⟩ := h
    exact ⟨key, hkey, hex, hsub hmem⟩
  | created task q2TaskId =>
    simp only [hp] at h
    exact fun key hkey => hsub (h key hkey)

/-- What a call's own step leaves it with. -/
theorem Sighted.advance {p p' : AsyncProcess} {t : Enqueueing} (h : Keyed s) (hp : p ∈ s.calls)
    (hadv : Advance conf s p env t p'.phase) (hcall : p'.call = p.call) : Sighted t.keyed p' := by
  have hseen := h.calls p hp
  generalize hphase : p'.phase = phase at hadv
  unfold Sighted
  rw [hphase, hcall]
  cases hadv with
  | reclaimed hk | looking hk => exact hk
  | preparing | returned | raised => trivial
  | @found caught existing hq hfind =>
    unfold Sighted at hseen
    rw [hq] at hseen
    obtain ⟨key, hkey⟩ := truthy_eq_true hseen
    rw [hkey, Option.getD_some] at hfind
    obtain ⟨hmem, hheld⟩ := keyHolder?_eq_some hfind
    exact ⟨key, hkey, hheld, h.table.held existing hmem key hheld⟩
  | prepared hm => exact metadata_key hm
  | @created metadata cluster raises t hq hc =>
    obtain ⟨m, hm, -, rfl⟩ := createAndEnqueue_eq_ok hc
    unfold Sighted at hseen
    rw [hq] at hseen
    intro key hkey
    have hmkey : m.idempotencyKey = some key := by
      rcases relabel_eq_ok hm with ⟨rfl, -⟩ | ⟨id, g, -, -, -, rfl⟩
      · exact hseen.trans hkey
      · exact hseen.trans hkey
    refine List.mem_append_right _ (List.mem_map.mpr ⟨key, ?_, rfl⟩)
    exact Option.mem_toList.mpr hmkey

theorem KeyTable.effect {e : EnqueueEvent} {life : Lifecycle} {keyed : List KeyedTask}
    (h : KeyTable s.life s.keyed) (hord : Undisturbed s (e, env))
    (heff : TableEffect conf limit s env e life keyed) : KeyTable life keyed := by
  cases heff with
  | same => exact h
  | moved hf hstep => exact h.step hstep hord (newKey_foreign hf)
  | dispatched hg hm hstep => exact h.step hstep rfl (nodeMetadata_key hm)
  | created ho hm hfree => exact h.created _ _ env hfree
  | unkeyed key =>
    apply h.relabel (relabels_unkey key)
    intro t
    unfold unkey
    split
    · rename_i hp
      simp only [Bool.and_eq_true, decide_eq_true_eq] at hp
      exact .inr ⟨rfl, hp.2⟩
    · exact .inl rfl
  | filledIn ty id =>
    apply h.relabel (relabels_fillIn _ ty id)
    intro t
    unfold fillIn
    split
    · exact .inl rfl
    · exact .inl rfl

theorem reach_keyed (h : (enqueueSystem conf limit).ReachWhen Undisturbed s) : Keyed s := by
  apply h.invariant Keyed
  · rintro s rfl
    have hreach : (lifecycleSystem 0).Reach {} := .init rfl
    refine ⟨⟨Lifecycle.reach_distinct hreach, ⟨?_, ?_⟩, ?_, ?_, ?_⟩, ?_⟩
    all_goals exact fun x hx => absurd hx List.not_mem_nil
  · rintro s ⟨e, env⟩ s' hs hord hstep
    refine ⟨hs.table.effect hord (step_table hstep), ?_⟩
    intro p' hp'
    rcases step_calls hstep hp' with hold | hcalled | ⟨p, hp, t, hadv, hcall, hkeyed⟩
    · exact (hs.calls p' hold).mono (step_keyed hstep)
    · unfold Sighted
      rw [hcalled]
      trivial
    · rw [hkeyed]
      exact Sighted.advance hs hp hadv hcall

def phaseOf (s : Enqueueing) (i : Nat) : Option AsyncPhase := s.calls[i]?.map fun p => p.phase

/-- A call's own step leaves it at the place it advanced to. -/
theorem step_proceed {i : Nat} {raises : Option QraftError} {phase : AsyncPhase}
    (h : s.step conf limit env (.proceed i raises) = some s') (hphase : s'.phaseOf i = some phase) :
    ∃ p t, s.calls[i]? = some p ∧ Advance conf s p env t phase := by
  obtain ⟨p, hp, h⟩ := Option.bind_eq_some_iff.mp h
  obtain ⟨t, phase', hadv, rfl⟩ := proceed_eq_some h
  rw [phaseOf, setPhase, List.getElem?_modify_eq, hadv.calls_eq, hp] at hphase
  cases hphase
  exact ⟨p, t, hp, hadv⟩

/-- A task created under a key that is not dead holds it. -/
theorem Keyed.holds (h : Keyed s) {key : String} {t : QraftTask} (ht : t ∈ s.life.store.tasks)
    (hc : ⟨key, t.id⟩ ∈ s.keyed) : Keeps key t := by
  obtain ⟨u, hu, -, hkeeps⟩ := h.table.owned _ hc
  have hfind := h.table.distinct.task?_of_mem ht
  obtain rfl := Option.some.inj (hfind.symm.trans hu)
  exact hkeeps

theorem Keyed.one_holder (h : Keyed s) {key : String} {t u : QraftTask} (ht : t ∈ s.life.store.tasks)
    (hu : u ∈ s.life.store.tasks) (hkt : t.idempotencyKey = some key)
    (hku : u.idempotencyKey = some key) : t = u :=
  Rows.eq_of_key_eq h.table.distinct.tasks ht hu (h.table.single t ht u hu key hkt hku)

/-- When a task is created under a key, all that were created under it before are dead. -/
theorem Keyed.created_dead (h : Keyed s) {e : EnqueueEvent}
    (hstep : s.step conf limit env e = some s') {key : String} {task : TaskId}
    (hnew : ⟨key, task⟩ ∈ s'.keyed) (hold : ⟨key, task⟩ ∉ s.keyed) {t : QraftTask}
    (ht : t ∈ s.life.store.tasks) (hc : ⟨key, t.id⟩ ∈ s.keyed) : t.status.Dead := by
  have heff := step_table hstep
  generalize s'.life = life at heff
  generalize s'.keyed = keyed at heff hnew
  cases heff with
  | same | moved | dispatched | unkeyed | filledIn => exact absurd hnew hold
  | created ho hm hfree =>
    rcases List.mem_append.mp hnew with hnew | hnew
    · exact absurd hnew hold
    · obtain ⟨k, hk, he⟩ := List.mem_map.mp hnew
      obtain rfl : k = key := congrArg KeyedTask.key he
      have hnone := List.find?_eq_none.mp (hfree k (Option.mem_toList.mp hk)) t ht
      rcases h.holds ht hc with hheld | ⟨-, hdead⟩
      · exact absurd (decide_eq_true hheld) hnone
      · exact hdead

/-- However calls with one key interleave with each other, with the completions of the tasks they
create and with everything else: one row at most holds the key, one task at most that was created
under it is not settled, none is created while an earlier one is live or succeeded, and what a call
returns without creating is a message of the task it saw holding the key. -/
theorem one_live_task (h : (enqueueSystem conf limit).ReachWhen Undisturbed s) :
    (∀ key, ∀ t ∈ s.life.store.tasks, ∀ u ∈ s.life.store.tasks,
      t.idempotencyKey = some key → u.idempotencyKey = some key → t = u) ∧
    (∀ key, ∀ t ∈ s.life.store.tasks, ∀ u ∈ s.life.store.tasks, ⟨key, t.id⟩ ∈ s.keyed →
      ⟨key, u.id⟩ ∈ s.keyed → ¬ t.status.Terminal → ¬ u.status.Terminal → t = u) ∧
    (∀ e env s', s.step conf limit env e = some s' → ∀ key task, ⟨key, task⟩ ∈ s'.keyed →
      ⟨key, task⟩ ∉ s.keyed → ∀ t ∈ s.life.store.tasks, ⟨key, t.id⟩ ∈ s.keyed → t.status.Dead) ∧
    (∀ p ∈ s.calls, ∀ task q2TaskId key, p.phase = .created task q2TaskId →
      p.call.options.idempotencyKey = some key → ⟨key, task⟩ ∈ s.keyed) ∧
    (∀ i raises env s', s.step conf limit env (.proceed i raises) = some s' →
      ∀ caught existing, s'.phaseOf i = some (.found caught existing) →
        existing ∈ s.life.store.tasks ∧ ∃ p key, s.calls[i]? = some p ∧
          p.call.options.idempotencyKey = some key ∧ existing.idempotencyKey = some key) ∧
    (∀ i raises env s', s.step conf limit env (.proceed i raises) = some s' →
      ∀ existing q2TaskId, s'.phaseOf i = some (.returned existing q2TaskId) →
        ∃ p key, s.calls[i]? = some p ∧ p.call.options.idempotencyKey = some key ∧
          existing.idempotencyKey = some key ∧
          ∃ t ∈ s.life.store.tasks, t.id = existing.id ∧ Keeps key t ∧
            ∃ a ∈ t.attempts, a.q2TaskId = some q2TaskId) := by
  have hs := reach_keyed h
  refine ⟨fun key t ht u hu => hs.one_holder ht hu, ?_, ?_, ?_, ?_, ?_⟩
  · intro key t ht u hu hct hcu hlive hlive'
    have held {t : QraftTask} (ht : t ∈ s.life.store.tasks) (hc : ⟨key, t.id⟩ ∈ s.keyed)
        (hlive : ¬ t.status.Terminal) : t.idempotencyKey = some key := by
      rcases hs.holds ht hc with hheld | ⟨-, hdead⟩
      · exact hheld
      · exact absurd (.inr hdead) hlive
    exact hs.one_holder ht hu (held ht hct hlive) (held hu hcu hlive')
  · intro e env s' hstep key task hnew hold t ht hc
    exact hs.created_dead hstep hnew hold ht hc
  · intro p hp task q2TaskId key hphase hkey
    have hseen := hs.calls p hp
    unfold Sighted at hseen
    rw [hphase] at hseen
    exact hseen key hkey
  · intro i raises env s' hstep caught existing hphase
    obtain ⟨p, t, hp, hadv⟩ := step_proceed hstep hphase
    have hp' := List.mem_of_getElem? hp
    cases hadv with
    | found hq hfind =>
      have hseen := hs.calls p hp'
      unfold Sighted at hseen
      rw [hq] at hseen
      obtain ⟨key, hkey⟩ := truthy_eq_true hseen
      rw [hkey, Option.getD_some] at hfind
      obtain ⟨hmem, hheld⟩ := keyHolder?_eq_some hfind
      exact ⟨hmem, p, key, hp, hkey, hheld⟩
  · intro i raises env s' hstep existing q2TaskId hphase
    obtain ⟨p, t, hp, hadv⟩ := step_proceed hstep hphase
    cases hadv with
    | returned hq hmessage =>
      have hseen := hs.calls p (List.mem_of_getElem? hp)
      unfold Sighted at hseen
      rw [hq] at hseen
      obtain ⟨key, hkey, hex, hc⟩ := hseen
      obtain ⟨u, hu, hattempt⟩ := holderMessage_eq_some hmessage
      obtain ⟨hmem, hid⟩ := TaskStore.task?_eq_some hu
      exact ⟨p, key, hp, hkey, hex, u, hmem, hid, hs.holds hmem (hid ▸ hc), hattempt⟩

def atTime (now : Time) (e : EnqueueEvent) : EnqueueEvent × Env := (e, { now })

def charge : AsyncCall :=
  { func := "app.charge", options := { idempotencyKey := some "order-7", idempotencyRetryDead := true } }

/-- A first charge fails. Two callers then find the key free and race for it, and the one that loses
returns the message of the winner's task. -/
def racedCalls : List (EnqueueEvent × Env) :=
  let fail : Q2Task := { id := 2, success := false, exceptionClass := some "ValueError", stopped := 2 }
  [atTime 1 (.asyncTask charge)] ++ List.replicate 4 (atTime 1 (.proceed 0 none)) ++
  [atTime 2 (.table (.saveResult fail)), atTime 2 (.table (.handleResult 0)),
    atTime 3 (.asyncTask charge), atTime 3 (.asyncTask charge)] ++
  List.replicate 3 (atTime 3 (.proceed 1 none)) ++ List.replicate 3 (atTime 3 (.proceed 2 none)) ++
  [atTime 4 (.proceed 1 none), atTime 4 (.proceed 2 none), atTime 5 (.proceed 2 none)]

theorem one_live_task_raced : ∃ s, (enqueueSystem {} 1).ReachWhen Undisturbed s ∧
    s.keyed.length = 2 ∧ (∃ t ∈ s.life.store.tasks, t.idempotencyKey = some "order-7") ∧
    ∀ t ∈ s.life.store.tasks, ∀ u ∈ s.life.store.tasks, t.idempotencyKey = some "order-7" →
      u.idempotencyKey = some "order-7" → t = u := by
  obtain ⟨s, hr, hp⟩ := StepSystem.exists_reach_of_run
    ((enqueueSystem {} 1).guard Undisturbed) racedCalls (.init rfl)
    (fun s => s.keyed.length = 2 &&
      s.life.store.tasks.any fun t => t.idempotencyKey = some "order-7") (by decide)
  simp only [Bool.and_eq_true, decide_eq_true_eq, List.any_eq_true] at hp
  have hreach := StepSystem.reachWhen_of_guard hr
  exact ⟨s, hreach, hp.1, hp.2, (one_live_task hreach).1 "order-7"⟩

end
end Enqueueing
end Qraft
