import Qraft.Lifecycle.Decisions
import Qraft.Lifecycle.Ownership
import Qraft.Lifecycle.Runs

/-! Dispatchers over the task table: a loop reads a due row, and claims and enqueues it in the
rest of its transaction, unless it loses the row or dies first. -/
namespace Qraft
open QraftTask QraftTaskAttempt TaskStore

namespace Lifecycle

/-- The message a step hands to the broker, with the attempt it is for. -/
def enqueues (l : Lifecycle) : LifecycleEvent → Option (AttemptId × Q2TaskId)
  | .asyncTask .. => some (l.store.nextId + 1, l.store.nextId + 2)
  | .claimAndEnqueue _ attempt _ => some (attempt, l.store.nextId)
  | _ => none

/-- The attempt whose enqueue a step is, if it is one. -/
def subject (l : Lifecycle) (e : LifecycleEvent) : Option AttemptId := (l.enqueues e).map Prod.fst

/-- What a step put on the queue, under the attempt it was about. -/
def posted (l l' : Lifecycle) (e : LifecycleEvent) : List (Option AttemptId × Q2TaskId) :=
  (l'.queue.diff l.queue).map fun q => (l.subject e, q)

end Lifecycle

/-- A due row that `_claim_and_enqueue` has read and not yet swapped. -/
structure Pick where
  task : TaskId
  attempt : AttemptId
  cutoff : Time

structure Dispatching where
  life : Lifecycle := {}
  picks : List Pick := []
  /-- Every message that came to the queue, under the attempt of the step that put it there; no
  function reads it. -/
  sent : List (Option AttemptId × Q2TaskId) := []

inductive DispatchEvent where
  /-- Anything but a dispatcher's claim. -/
  | table (e : LifecycleEvent)
  /-- A dispatcher reads a due row. -/
  | pick (task : TaskId) (attempt : AttemptId) (cutoff : Time)
  /-- Its compare-and-swap on `state`, and what commits with it. -/
  | claim (i : Nat)
  /-- It dies, and its transaction is rolled back. -/
  | crash (i : Nat)

namespace Dispatching

def step (limit : Nat) (d : Dispatching) (env : Env) : DispatchEvent → Option Dispatching
  | .table (.claimAndEnqueue ..) => none
  | .table e => (d.life.step limit env e).map fun life =>
      { d with life, sent := d.sent ++ d.life.posted life e }
  | .pick task attempt cutoff =>
    (d.life.find task attempt).bind fun (_, a) =>
      if a.state = .scheduled ∧ a.notBefore.any fun due => due ≤ cutoff then
        some { d with picks := d.picks ++ [⟨task, attempt, cutoff⟩] }
      else none
  | .claim i =>
    d.picks[i]?.map fun p =>
      let e := LifecycleEvent.claimAndEnqueue p.task p.attempt p.cutoff
      match d.life.step limit env e with
      | some life =>
        { life, picks := d.picks.eraseIdx i, sent := d.sent ++ d.life.posted life e }
      -- The swap matched no row: another dispatcher won it.
      | none => { d with picks := d.picks.eraseIdx i }
  | .crash i => some { d with picks := d.picks.eraseIdx i }

end Dispatching

/-- Any number of dispatchers over the task table. -/
def dispatchSystem (limit : Nat) : StepSystem Dispatching (DispatchEvent × Env) where
  init d := d = {}
  step d e := d.step limit e.2 e.1

namespace Lifecycle

/-- A row that no step but a claim or a re-arm sends to the broker or takes back. -/
def SamePlace (st : TaskStore) (a' : QraftTaskAttempt) : Prop :=
  (∃ t ∈ st.tasks, ∃ a ∈ t.attempts, a.id = a'.id ∧ a.state = a'.state ∧ a.q2TaskId = a'.q2TaskId) ∨
    (a'.state = .scheduled ∧ st.nextId ≤ a'.id)

/-- A row before it was handed to the broker. -/
def NotSent (st : TaskStore) (id : AttemptId) : Prop :=
  (∃ t ∈ st.tasks, ∃ a ∈ t.attempts, a.id = id ∧ a.state = .scheduled) ∨ st.nextId ≤ id

/-- No dispatcher's claim is left without its enqueue. -/
def Delivered (st : TaskStore) : Prop :=
  ∀ t ∈ st.tasks, ∀ a ∈ t.attempts, a.state = .queued → a.q2TaskId ≠ none

/-- The rows of a task that go on as they were, or were scheduled by the step. -/
private theorem Resolved.samePlace {st : TaskStore} {t t' : QraftTask} {id : AttemptId}
    {number : Nat} {now : Time} {routing : Routing} (ht : t ∈ st.tasks)
    (h : Resolved t id number st.nextId now t' routing) {a' : QraftTaskAttempt}
    (ha' : a' ∈ t'.attempts) : SamePlace st a' := by
  have hold : ∀ {u : QraftTask} {f : QraftTaskAttempt → QraftTaskAttempt}, (∀ a, Holds a (f a)) →
      (∀ a ∈ u.attempts, SamePlace st a) → ∀ a ∈ (u.updateAttempt id f).attempts, SamePlace st a := by
    intro u f hf hu a ha
    obtain ⟨b, hb, rfl⟩ := Rows.mem_updateWhere.mp ha
    split
    · obtain ⟨hid, hq, hs, -⟩ := hf b
      unfold SamePlace
      rw [hid, hq, hs]
      exact hu b hb
    · exact hu b hb
  have hrows : ∀ a ∈ t.attempts, SamePlace st a := fun a ha => .inl ⟨t, ht, a, ha, rfl, rfl, rfl⟩
  cases h with
  | decided hv hu ht =>
    subst hu
    rcases ht with rfl | rfl
    · exact hold (holds_decide _ _ _) hrows a' ha'
    · exact hold holds_routed (hold (holds_decide _ _ _) hrows) a' ha'
  | retried hp hl hu =>
    refine hold holds_routed ?_ a' ha'
    intro a ha
    rw [(scheduleAttempt_attempts hu).2] at ha
    rcases List.mem_append.mp ha with ha | ha
    · exact hold (holds_decide _ _ _) hrows a ha
    · rw [List.mem_singleton.mp ha]
      exact .inr ⟨rfl, Nat.le_refl _⟩

private theorem TaskMove.place {l : Lifecycle} {env : Env} {e : LifecycleEvent} {t t' : QraftTask}
    (ht : t ∈ l.store.tasks) (h : TaskMove l env e t t') {a' : QraftTaskAttempt}
    (ha' : a' ∈ t'.attempts) :
    (∃ q, l.enqueues e = some (a'.id, q) ∧ a'.state = .queued ∧ a'.q2TaskId = some q) ∨
      ((∀ q, l.enqueues e ≠ some (a'.id, q)) ∧ SamePlace l.store a') := by
  have hsame : ∀ a ∈ t.attempts, SamePlace l.store a := fun a ha => .inl ⟨t, ht, a, ha, rfl, rfl, rfl⟩
  have hnone (he : l.enqueues e = none) (q : Q2TaskId) : l.enqueues e ≠ some (a'.id, q) := by
    rw [he]
    exact nofun
  cases h with
  | @claimed task attempt cutoff _ _ hok =>
    obtain ⟨_, rfl⟩ := claimAndEnqueue_eq_some hok
    obtain ⟨a, ha, rfl⟩ := Rows.mem_updateWhere.mp ha'
    by_cases hid : a.id = attempt
    · refine .inl ⟨l.store.nextId, ?_, ?_, ?_⟩ <;> simp [enqueues, hid, QraftTaskAttempt.enqueue]
    · rw [if_neg (by simpa using hid)]
      refine .inr ⟨?_, hsame a ha⟩
      intro q hq
      exact hid (congrArg Prod.fst (Option.some.inj hq)).symm
  | published =>
    refine .inr ⟨hnone rfl, ?_⟩
    obtain ⟨a, ha, rfl⟩ := Rows.mem_updateWhere.mp ha'
    split <;> exact hsame a ha
  | routed _ _ =>
    refine .inr ⟨hnone rfl, ?_⟩
    obtain ⟨a, ha, rfl⟩ := Rows.mem_updateWhere.mp ha'
    split <;> exact hsame a ha
  | result _ _ _ hok =>
    refine .inr ⟨hnone rfl, ?_⟩
    rcases handleResult_ok hok with ⟨he, _⟩ | ⟨b, _, _, _, hres⟩
    · cases he
      exact hsame a' ha'
    · exact Resolved.samePlace ht hres ha'
  | reaped _ _ hp hok =>
    simp only [reapable, Bool.and_eq_true, decide_eq_true_eq] at hp
    exact .inr ⟨hnone rfl, Resolved.samePlace ht (reap_ok hp.1.1.2 hok) ha'⟩
  | requeued _ _ hok =>
    refine .inr ⟨hnone rfl, ?_⟩
    rw [(scheduleAttempt_attempts hok).2] at ha'
    rcases List.mem_append.mp ha' with hm | hm
    · exact hsame a' hm
    · rw [List.mem_singleton.mp hm]
      exact .inr ⟨rfl, Nat.le_refl _⟩

/-- Whoever is handed to the broker was not before. -/
theorem enqueues_eq_some {limit : Nat} {l l' : Lifecycle} {env : Env} {e : LifecycleEvent}
    {x : AttemptId × Q2TaskId} (h : l.store.Distinct) (hstep : l.step limit env e = some l')
    (hx : l.enqueues e = some x) :
    NotSent l.store x.1 ∧ l.store.nextId < l'.store.nextId ∧ x.1 < l'.store.nextId := by
  cases e with
  | asyncTask metadata cluster trace =>
    cases hx
    cases hstep
    refine ⟨.inr (Nat.le_succ _), Nat.lt_add_of_pos_right (by decide), ?_⟩
    exact Nat.add_lt_add_left (by decide) _
  | claimAndEnqueue task attempt cutoff =>
    cases hx
    obtain ⟨t, ht, hstep⟩ := Option.bind_eq_some_iff.mp hstep
    obtain ⟨t', hok, rfl⟩ := Option.map_eq_some_iff.mp hstep
    obtain ⟨⟨a, ha, hid, hs⟩, _⟩ := claimAndEnqueue_eq_some hok
    have htm := (task?_eq_some ht).1
    refine ⟨.inl ⟨t, htm, a, ha, hid, hs⟩, Nat.lt_succ_self _, ?_⟩
    exact hid ▸ Nat.lt_succ_of_lt ((h.bound t htm).2 a ha).1
  | _ => cases hx

/-- Where each row stands with the broker after a step. -/
theorem step_place {limit : Nat} {l l' : Lifecycle} {env : Env} {e : LifecycleEvent}
    (h : l.store.Distinct) (hdel : Delivered l.store) (hstep : l.step limit env e = some l')
    {t' : QraftTask} (ht' : t' ∈ l'.store.tasks) {a' : QraftTaskAttempt} (ha' : a' ∈ t'.attempts) :
    (∃ q, l.enqueues e = some (a'.id, q) ∧ a'.state = .queued ∧ a'.q2TaskId = some q) ∨
      ((∀ q, l.enqueues e ≠ some (a'.id, q)) ∧ SamePlace l.store a') := by
  have hsame : ∀ t ∈ l.store.tasks, ∀ a ∈ t.attempts, SamePlace l.store a :=
    fun t ht a ha => .inl ⟨t, ht, a, ha, rfl, rfl, rfl⟩
  have heff := step_effect hstep
  generalize hst : l'.store = st at heff ht'
  cases heff with
  | idle =>
    refine .inr ⟨?_, hsame t' ht' a' ha'⟩
    intro q hq
    have hlt := (enqueues_eq_some h hstep hq).2.1
    rw [hst] at hlt
    exact Nat.lt_irrefl _ hlt
  | leased q w =>
    refine .inr ⟨nofun, ?_⟩
    obtain ⟨t, ht, rfl⟩ := List.mem_map.mp ht'
    obtain ⟨a, ha, rfl⟩ := Rows.mem_updateWhere.mp ha'
    split
    · cases w <;> exact hsame t ht a ha
    · exact hsame t ht a ha
  | rearmed cutoff =>
    refine .inr ⟨nofun, ?_⟩
    obtain ⟨t, ht, rfl⟩ := List.mem_map.mp ht'
    obtain ⟨a, ha, rfl⟩ := Rows.mem_updateWhere.mp ha'
    split
    · rename_i hsel
      simp only [Bool.and_eq_true, decide_eq_true_eq, Option.isNone_iff_eq_none] at hsel
      exact absurd hsel.1.1.2 (hdel t ht a ha hsel.1.1.1)
    · exact hsame t ht a ha
  | @written _ t u ht hm =>
    rcases (mem_save h.tasks ht (hm.carries h ht).id t').mp ht' with ⟨ht', hne⟩ | rfl
    · refine .inr ⟨?_, hsame t' ht' a' ha'⟩
      intro q hq
      cases hm with
      | claimed hok =>
        obtain ⟨⟨a, ha, hid, -⟩, _⟩ := claimAndEnqueue_eq_some hok
        have hida : a.id = a'.id := hid.trans (congrArg Prod.fst (Option.some.inj hq))
        exact hne (h.owner t' ht' a' ha' t ht a ha hida.symm)
      | _ => cases hq
    · exact TaskMove.place ht hm ha'
  | enqueued metadata cluster trace =>
    rcases List.mem_append.mp ht' with ht' | ht'
    · refine .inr ⟨?_, hsame t' ht' a' ha'⟩
      intro q hq
      have hlt := ((h.bound t' ht').2 a' ha').1
      have hid : l.store.nextId + 1 = a'.id := congrArg Prod.fst (Option.some.inj hq)
      exact Nat.not_succ_le_self _ (hid ▸ Nat.le_of_lt hlt)
    · rw [List.mem_singleton.mp ht'] at ha'
      rw [List.mem_singleton.mp ha']
      exact .inl ⟨l.store.nextId + 2, rfl, rfl, rfl⟩
  | scheduled hok =>
    refine .inr ⟨nofun, ?_⟩
    rcases List.mem_append.mp ht' with ht' | ht'
    · exact hsame t' ht' a' ha'
    · rw [List.mem_singleton.mp ht', (scheduleAttempt_attempts hok).2] at ha'
      rw [List.mem_singleton.mp ha']
      exact .inr ⟨rfl, Nat.le_succ _⟩

private theorem append_diff (l m : List Q2TaskId) : (l ++ m).diff l = m := by
  induction l with
  | nil => rfl
  | cons q l ih => rw [List.cons_append, List.diff_cons, List.erase_cons_head, ih]

private theorem diff_self (l : List Q2TaskId) : l.diff l = [] := by
  have h := append_diff l []
  rwa [List.append_nil] at h

private theorem erase_diff (l : List Q2TaskId) (q : Q2TaskId) : (l.erase q).diff l = [] := by
  rw [← List.diff_erase, diff_self]
  rfl

/-- A step puts on the queue the message of its own enqueue and no other. -/
theorem step_posted {limit : Nat} {l l' : Lifecycle} {env : Env} {e : LifecycleEvent}
    (hstep : l.step limit env e = some l') :
    l.posted l' e = (l.enqueues e).toList.map fun x => (some x.1, x.2) := by
  have hsame (hq : l'.queue = l.queue) : l.posted l' e = [] := by
    rw [posted, hq, diff_self]
    rfl
  cases e with
  | asyncTask metadata cluster trace =>
    cases hstep
    simp only [posted, append_diff]
    rfl
  | claimAndEnqueue task attempt cutoff =>
    obtain ⟨t, ht, hstep⟩ := Option.bind_eq_some_iff.mp hstep
    obtain ⟨t', hok, rfl⟩ := Option.map_eq_some_iff.mp hstep
    simp only [posted, append_diff]
    rfl
  | acknowledge q =>
    cases hstep
    simp only [posted, erase_diff]
    rfl
  | _ =>
    refine hsame ?_
    simp only [step, Option.bind_eq_some_iff, Option.map_eq_some_iff] at hstep
    grind [commit, resolve, Option.map_eq_some_iff]

/-- What is on the queue was there or was put there. -/
theorem mem_posted {l l' : Lifecycle} {q : Q2TaskId} (e : LifecycleEvent) (hq : q ∈ l'.queue) :
    q ∈ l.queue ∨ (l.subject e, q) ∈ l.posted l' e := by
  by_cases hold : q ∈ l.queue
  · exact .inl hold
  · exact .inr (List.mem_map_of_mem (List.mem_diff_of_mem hq hold))

end Lifecycle

namespace Dispatching
open Lifecycle

/-- Every row agrees with what was handed to the broker for it. -/
structure Agrees (d : Dispatching) : Prop where
  distinct : d.life.store.Distinct
  scheduled : ∀ t ∈ d.life.store.tasks, ∀ a ∈ t.attempts, a.state = .scheduled →
    ∀ x ∈ d.sent, x.1 ≠ some a.id
  queued : ∀ t ∈ d.life.store.tasks, ∀ a ∈ t.attempts, a.state = .queued →
    ∃ q, a.q2TaskId = some q ∧ (d.sent.filter fun x => x.1 = some a.id) = [(some a.id, q)]
  bound : ∀ x ∈ d.sent, ∃ id < d.life.store.nextId, x.1 = some id
  once : (d.sent.map fun x => x.1).Nodup
  queue : ∀ q ∈ d.life.queue, ∃ id, (some id, q) ∈ d.sent

theorem Agrees.delivered {d : Dispatching} (h : d.Agrees) : Delivered d.life.store := by
  intro t ht a ha hs
  obtain ⟨q, hq, _⟩ := h.queued t ht a ha hs
  simp [hq]

/-- Nobody was sent who is not. -/
private theorem Agrees.unsent {d : Dispatching} (h : d.Agrees) {id : AttemptId}
    (hn : NotSent d.life.store id) : ∀ x ∈ d.sent, x.1 ≠ some id := by
  intro x hx
  rcases hn with ⟨t, ht, a, ha, rfl, hs⟩ | hle
  · exact h.scheduled t ht a ha hs x hx
  · obtain ⟨sent, hlt, hsent⟩ := h.bound x hx
    rw [hsent]
    exact fun he => Nat.ne_of_lt (Nat.lt_of_lt_of_le hlt hle) (Option.some.inj he)

private theorem filter_sent {sent : List (Option AttemptId × Q2TaskId)} {id : AttemptId}
    (h : ∀ x ∈ sent, x.1 ≠ some id) : (sent.filter fun x => x.1 = some id) = [] := by
  apply List.filter_eq_nil_iff.mpr
  intro x hx
  simpa using h x hx

/-- Every step of the table keeps rows and messages in agreement. -/
theorem Agrees.table {limit : Nat} {d : Dispatching} {env : Env} {e : LifecycleEvent}
    {life : Lifecycle} (h : d.Agrees) (hstep : d.life.step limit env e = some life) (picks : List Pick) :
    Agrees { life, picks, sent := d.sent ++ d.life.posted life e } := by
  have hplace : ∀ t' ∈ life.store.tasks, ∀ a' ∈ t'.attempts, _ :=
    fun t' ht' a' ha' => step_place h.distinct h.delivered hstep ht' ha'
  have hnew : ∀ x ∈ d.life.posted life e, ∃ y, d.life.enqueues e = some y ∧ x = (some y.1, y.2) := by
    intro x hx
    rw [step_posted hstep] at hx
    obtain ⟨y, hy, rfl⟩ := List.mem_map.mp hx
    exact ⟨y, Option.mem_toList.mp hy, rfl⟩
  refine ⟨(step_rows h.distinct hstep).1, ?_, ?_, ?_, ?_, ?_⟩
  · intro t' ht' a' ha' hs x hx
    rcases hplace t' ht' a' ha' with ⟨q, _, hqs, _⟩ | ⟨hne, hsame⟩
    · rw [hs] at hqs
      cases hqs
    · rcases List.mem_append.mp hx with hx | hx
      · apply h.unsent ?_ x hx
        exact hsame.imp (fun ⟨t, ht, a, ha, hid, hst, _⟩ => ⟨t, ht, a, ha, hid, hst.trans hs⟩) And.right
      · obtain ⟨y, hy, rfl⟩ := hnew x hx
        intro hid
        exact hne y.2 (Option.some.inj hid ▸ hy)
  · intro t' ht' a' ha' hs
    rcases hplace t' ht' a' ha' with ⟨q, hx, _, hq⟩ | ⟨hne, hsame⟩
    · obtain ⟨hn, _, _⟩ := enqueues_eq_some h.distinct hstep hx
      refine ⟨q, hq, ?_⟩
      rw [step_posted hstep, hx, List.filter_append, filter_sent (h.unsent hn)]
      simp
    · rcases hsame with ⟨t, ht, a, ha, hid, hst, hq⟩ | ⟨hst, _⟩
      · obtain ⟨q, haq, hf⟩ := h.queued t ht a ha (hst.trans hs)
        refine ⟨q, hq.symm.trans haq, ?_⟩
        have hnil : ((d.life.posted life e).filter fun x => x.1 = some a'.id) = [] := by
          apply filter_sent
          intro x hx he
          obtain ⟨y, hy, rfl⟩ := hnew x hx
          exact hne y.2 (Option.some.inj he ▸ hy)
        rw [List.filter_append, hnil, List.append_nil, ← hid, hf]
      · rw [hs] at hst
        cases hst
  · intro x hx
    rcases List.mem_append.mp hx with hx | hx
    · obtain ⟨id, hlt, hid⟩ := h.bound x hx
      exact ⟨id, Nat.lt_of_lt_of_le hlt (step_nextId hstep), hid⟩
    · obtain ⟨y, hy, rfl⟩ := hnew x hx
      exact ⟨y.1, (enqueues_eq_some h.distinct hstep hy).2.2, rfl⟩
  · rw [List.map_append]
    refine List.nodup_append.mpr ⟨h.once, ?_, ?_⟩
    · rw [step_posted hstep]
      cases d.life.enqueues e <;> simp
    · intro i hi j hj
      obtain ⟨x, hx, rfl⟩ := List.mem_map.mp hi
      obtain ⟨y, hy, rfl⟩ := List.mem_map.mp hj
      obtain ⟨z, hz, rfl⟩ := hnew y hy
      exact h.unsent (enqueues_eq_some h.distinct hstep hz).1 x hx
  · intro q hq
    rcases mem_posted e hq with hq | hx
    · obtain ⟨id, hm⟩ := h.queue q hq
      exact ⟨id, List.mem_append_left _ hm⟩
    · obtain ⟨y, -, hy⟩ := hnew _ hx
      rw [hy] at hx
      obtain ⟨-, rfl⟩ := Prod.mk.inj hy
      exact ⟨y.1, List.mem_append_right _ hx⟩

theorem Agrees.step {limit : Nat} {d d' : Dispatching} {env : Env} {e : DispatchEvent}
    (h : d.Agrees) (hstep : d.step limit env e = some d') : d'.Agrees := by
  cases e with
  | table e =>
    have hmap : (d.life.step limit env e).map (fun life =>
        { d with life, sent := d.sent ++ d.life.posted life e }) = some d' := by
      cases e <;> first | exact hstep | cases hstep
    obtain ⟨life, hl, rfl⟩ := Option.map_eq_some_iff.mp hmap
    exact h.table hl d.picks
  | pick task attempt cutoff =>
    obtain ⟨x, _, hstep⟩ := Option.bind_eq_some_iff.mp hstep
    simp only at hstep
    split at hstep
    · cases hstep
      exact { h with }
    · cases hstep
  | claim i =>
    obtain ⟨p, _, rfl⟩ := Option.map_eq_some_iff.mp hstep
    simp only
    split
    · rename_i life hl
      exact h.table hl _
    · exact { h with }
  | crash i =>
    cases hstep
    exact { h with }

theorem reach_agrees {limit : Nat} {d : Dispatching} (h : (dispatchSystem limit).Reach d) : d.Agrees := by
  apply h.invariant Agrees
  · rintro d rfl
    have hstart : (lifecycleSystem limit).Reach {} := .init rfl
    have hdistinct := reach_distinct hstart
    refine ⟨hdistinct, ?_, ?_, ?_, List.nodup_nil, ?_⟩ <;> exact fun x hx => absurd hx List.not_mem_nil
  · intro d e d' hd _ hstep
    exact hd.step hstep

/-- A claim touches the status of PENDING tasks alone. -/
private theorem claim_status {limit : Nat} {d d' : Dispatching} {env : Env} {i : Nat}
    (h : d.life.store.Distinct) (hstep : d.step limit env (.claim i) = some d') {t t' : QraftTask}
    (ht : t ∈ d.life.store.tasks) (ht' : t' ∈ d'.life.store.tasks) (hid : t'.id = t.id)
    (hs : t.status ≠ .pending) : t'.status = t.status := by
  have hsame (hm : t' ∈ d.life.store.tasks) : t'.status = t.status := by
    rw [Rows.eq_of_key_eq h.tasks hm ht hid]
  obtain ⟨p, _, rfl⟩ := Option.map_eq_some_iff.mp hstep
  simp only at ht'
  split at ht'
  · rename_i life hl
    obtain ⟨u, hu, hl⟩ := Option.bind_eq_some_iff.mp hl
    obtain ⟨u', hok, rfl⟩ := Option.map_eq_some_iff.mp hl
    obtain ⟨_, he⟩ := claimAndEnqueue_eq_some hok
    have hum := (task?_eq_some hu).1
    have huid : u'.id = u.id := by rw [he]; rfl
    rcases (mem_save h.tasks hum huid t').mp ht' with ⟨hm, _⟩ | rfl
    · exact hsame hm
    · obtain rfl := Rows.eq_of_key_eq h.tasks hum ht (huid.symm.trans hid)
      rw [he, setStatus_status, if_neg hs]
  · exact hsame ht'

/-- However dispatchers, re-arming sweeps and crashes interleave: every message that came to the queue
came with the enqueue of one attempt, and no attempt had two; a SCHEDULED attempt had none and carries
no message id; a QUEUED one had exactly one, under the id it carries; and a claim leaves the status of
a settled task alone. -/
theorem enqueued_once {limit : Nat} {d : Dispatching} (h : (dispatchSystem limit).Reach d) :
    (d.sent.map fun x => x.1).Nodup ∧ (∀ x ∈ d.sent, x.1 ≠ none) ∧
    (∀ q ∈ d.life.queue, ∃ id, (some id, q) ∈ d.sent) ∧
    (∀ t ∈ d.life.store.tasks, ∀ a ∈ t.attempts,
      (a.state = .scheduled → a.q2TaskId = none ∧ ∀ x ∈ d.sent, x.1 ≠ some a.id) ∧
      (a.state = .queued → ∃ q, a.q2TaskId = some q ∧
        (d.sent.filter fun x => x.1 = some a.id) = [(some a.id, q)])) ∧
    ∀ i env d', (dispatchSystem limit).step d (.claim i, env) = some d' →
      ∀ t ∈ d.life.store.tasks, t.status.Terminal →
        ∀ t' ∈ d'.life.store.tasks, t'.id = t.id → t'.status = t.status := by
  have ha := reach_agrees h
  refine ⟨ha.once, ?_, ha.queue, ?_, ?_⟩
  · intro x hx
    obtain ⟨id, -, hid⟩ := ha.bound x hx
    simp [hid]
  · intro t ht a hat
    exact ⟨fun hs => ⟨ha.distinct.unclaimed t ht a hat hs, ha.scheduled t ht a hat hs⟩,
      ha.queued t ht a hat⟩
  · intro i env d' hstep t ht hterm t' ht' hid
    apply claim_status ha.distinct hstep ht ht' hid
    rintro he
    rw [he] at hterm
    rcases hterm with hf | hf | hf <;> cases hf

/-- Two dispatchers read one due attempt; the slower claim loses it. -/
def racing : List (DispatchEvent × Env) := [
  (.table (.scheduleTask Lifecycle.work none), { now := 1 }),
  (.pick 0 1 1, { now := 2 }),
  (.pick 0 1 1, { now := 2 }),
  (.claim 0, { now := 3 }),
  (.table (.rearm 100), { now := 4 }),
  (.claim 0, { now := 5 })]

theorem enqueued_once_racing : ∃ d, (dispatchSystem 1).Reach d ∧
    ∃ t ∈ d.life.store.tasks, ∃ a ∈ t.attempts, ∃ q, a.q2TaskId = some q ∧
      (d.sent.filter fun x => x.1 = some a.id) = [(some a.id, q)] := by
  obtain ⟨d, hr, hp⟩ := StepSystem.exists_reach_of_run (dispatchSystem 1) racing
    (.init rfl) (fun d => d.picks.isEmpty && d.life.store.tasks.any fun t =>
      t.attempts.any fun a => a.state = .queued) (by decide)
  obtain ⟨t, ht, hp⟩ := List.any_eq_true.mp (Bool.and_eq_true_iff.mp hp).2
  obtain ⟨a, ha, hp⟩ := List.any_eq_true.mp hp
  exact ⟨d, hr, t, ht, a, ha, ((enqueued_once hr).2.2.2.1 t ht a ha).2 (of_decide_eq_true hp)⟩

end Dispatching
end Qraft
