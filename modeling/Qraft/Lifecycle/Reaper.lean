import Qraft.Foundations.Sweep
import Qraft.Lifecycle.Messages
import Qraft.Lifecycle.Runs

/-! One sweep of `reap_orphans`: finished attempts are reconciled, unrouted ones replayed, orphans
reaped. No loop of it catches what the work on one attempt raises. -/
namespace Qraft
open QraftTask QraftTaskAttempt TaskStore

inductive Fault where
  /-- Before the transaction that resolves it commits. -/
  | resolution
  /-- In the routing that follows. -/
  | routing
  deriving DecidableEq

inductive SweepItem where
  /-- A saved completion whose attempt is not resolved. -/
  | finished (result : Q2Task)
  /-- A resolved attempt that was not routed. -/
  | unrouted (task : TaskId) (attempt : AttemptId) (number : Nat)
  /-- An orphan whose heartbeat stopped. -/
  | stale (task : TaskId) (attempt : AttemptId) (number : Nat)
  /-- An orphan that never started. -/
  | unstarted (task : TaskId) (attempt : AttemptId) (number : Nat)
  deriving DecidableEq

structure SweepConf where
  env : Env
  grace : Nat
  staleAfter : Nat
  /-- `_queued_q2_task_ids` can read the broker's queue. -/
  queueReadable : Bool

def SweepConf.cutoff (c : SweepConf) : Time := c.env.now - c.grace

def SweepConf.staleCutoff (c : SweepConf) : Time := c.env.now - c.staleAfter

namespace SweepItem

/-- The query that lists an item, in the order of the sweep. -/
def query : SweepItem → Nat
  | finished _ => 0
  | unrouted .. => 1
  | stale .. => 2
  | unstarted .. => 3

/-- `Meta.ordering` of the rows: attempts by `attempt_number`, results by `-stopped`. -/
def ordering : SweepItem → ℤ
  | finished result => -result.stopped
  | unrouted _ _ number => number
  | stale _ _ number => number
  | unstarted _ _ number => number

def Names (t : QraftTask) (a : QraftTaskAttempt) : SweepItem → Prop
  | finished result => a.q2TaskId = some result.id
  | unrouted task attempt number => t.id = task ∧ a.id = attempt ∧ a.attemptNumber = number
  | stale task attempt number => t.id = task ∧ a.id = attempt ∧ a.attemptNumber = number
  | unstarted task attempt number => t.id = task ∧ a.id = attempt ∧ a.attemptNumber = number

def Wanted (c : SweepConf) (l : Lifecycle) (t : QraftTask) (a : QraftTaskAttempt) : SweepItem → Prop
  | finished result =>
    result.id ∈ l.q2Rows ∧ l.results.reverse.find? (fun r => r.id = result.id) = some result ∧
      result.stopped < c.cutoff ∧ t.status = .running ∧ a.success = none ∧ a.state = .queued
  | unrouted .. => a.success ≠ none ∧ a.routed = false ∧ a.dateCompleted.any fun d => d < c.cutoff
  | stale .. => t.unresolved a l.q2Rows = true ∧ a.heartbeatAt.any fun h => h < c.cutoff
  | unstarted .. =>
    c.queueReadable = true ∧ t.unresolved a l.q2Rows = true ∧ a.heartbeatAt = none ∧
      a.claimedAt.getD a.dateCreated < c.staleCutoff ∧ a.q2TaskId.all fun q => q ∉ l.queue

end SweepItem

namespace Lifecycle

def Lists (c : SweepConf) (l : Lifecycle) (k : Nat) (x : SweepItem) : Prop :=
  x.query = k ∧ ∃ t ∈ l.store.tasks, ∃ a ∈ t.attempts, x.Names t a ∧ x.Wanted c l t a

/-- The attempt is resolved, and its routing was run or left to a retry. -/
def Processed (x : SweepItem) (l : Lifecycle) : Prop :=
  ∃ t ∈ l.store.tasks, ∃ a ∈ t.attempts, x.Names t a ∧ a.success ≠ none ∧ a.routed = true

/-- A resolution commits, and then its routing runs. Routing writes the tables of workflows, graphs
and hooks, and new tasks, none of which the sweep's queries read. -/
def settle (l : Lifecycle) (fault : Option Fault) (id : AttemptId)
    (resolution : Except QraftError (QraftTask × Routing)) : Lifecycle × Bool :=
  match resolution, fault with
  | .error _, _ => (l, true)
  | .ok _, some .resolution => (l, true)
  | .ok (t, _), some .routing => (l.commit t, true)
  | .ok (t, .due), none => ((l.commit t).commit (t.markRouted id), false)
  | .ok (t, _), none => (l.commit t, false)

/-- `_reap_one`, with nobody else at work. -/
def reapOne (l : Lifecycle) (c : SweepConf) (fault : Option Fault) (task : TaskId)
    (attempt : AttemptId) : Lifecycle × Bool :=
  match l.find task attempt with
  | none => (l, false)
  | some (t, row) =>
    if t.reapable row c.cutoff (l.q2Row row) then
      l.settle fault row.id (t.reap row (l.ownerCancelled t) l.store.nextId c.env)
    else (l, false)

/-- The work on one item, and whether it raised. -/
def sweepTurn (c : SweepConf) (fault : SweepItem → Option Fault) (l : Lifecycle) (x : SweepItem) :
    Lifecycle × Bool :=
  match x with
  | .finished result =>
    -- `qraft_hook_handler`.
    match l.store.resolveAttempt result.id with
    | none => (l, false)
    | some (t, a) =>
      l.settle (fault x) a.id (t.handleResult a.id result (l.ownerCancelled t) l.store.nextId c.env)
  | .unrouted task attempt _ =>
    match fault x with
    | some _ => (l, true)
    | none => ((l.store.task? task).elim l fun t => l.commit (t.markRouted attempt), false)
  | .stale task attempt _ => l.reapOne c (fault x) task attempt
  | .unstarted task attempt _ => l.reapOne c (fault x) task attempt

end Lifecycle

/-- `reap_orphans`: `reconcile_finished`, `replay_unrouted`, then the orphans of both queries in one
loop. Rows that a query's ordering leaves equal come as the database likes. -/
def ReapOrphans (c : SweepConf) (fault : SweepItem → Option Fault) (l : Lifecycle) (out : Lifecycle × Bool) :
    Prop :=
  Sweep.Phases (Lifecycle.sweepTurn c fault) SweepItem.ordering (Lifecycle.Lists c) [[0], [1], [2, 3]] l out

namespace QraftTask

/-- One attempt row of a task is rewritten; a scheduled one may be appended. -/
structure Rewrites (t t' : QraftTask) (a a' : QraftTaskAttempt) : Prop where
  id : t'.id = t.id
  mem : a' ∈ t'.attempts
  key : a'.id = a.id
  number : a'.attemptNumber = a.attemptNumber
  message : a'.q2TaskId = a.q2TaskId
  others : ∀ b ∈ t.attempts, b.id ≠ a.id → b ∈ t'.attempts
  origin : ∀ b ∈ t'.attempts, b = a' ∨ (b ∈ t.attempts ∧ b.id ≠ a.id) ∨ (b.state = .scheduled ∧ b.success = none)

section
variable {t t' t'' : QraftTask} {a a' a'' : QraftTaskAttempt}

theorem Rewrites.trans (h : Rewrites t t' a a') (h' : Rewrites t' t'' a' a'') : Rewrites t t'' a a'' := by
  refine ⟨h'.id.trans h.id, h'.mem, h'.key.trans h.key, h'.number.trans h.number, h'.message.trans h.message, ?_, ?_⟩
  · intro b hb hne
    exact h'.others b (h.others b hb hne) (by rw [h.key]; exact hne)
  · intro b hb
    rcases h'.origin b hb with hb | ⟨hb, hne⟩ | hb
    · exact .inl hb
    · rcases h.origin b hb with hb | hb | hb
      · exact absurd (by rw [hb]) hne
      · exact .inr (.inl hb)
      · exact .inr (.inr hb)
    · exact .inr (.inr hb)

theorem Rewrites.setStatus (h : Rewrites t t' a a') (s : TaskStatus) (now : Time) :
    Rewrites t (t'.setStatus s now) a a' := ⟨h.id, h.mem, h.key, h.number, h.message, h.others, h.origin⟩

theorem rewrites_updateAttempt (hn : (t.attempts.map fun b => b.id).Nodup) (ha : a ∈ t.attempts)
    {f : QraftTaskAttempt → QraftTaskAttempt} (hid : (f a).id = a.id)
    (hnumber : (f a).attemptNumber = a.attemptNumber) (hq : (f a).q2TaskId = a.q2TaskId) :
    Rewrites t (t.updateAttempt a.id f) a (f a) := by
  have hrow : ∀ b ∈ t.attempts, decide (b.id = a.id) = true ↔ b = a := by
    intro b hb
    rw [decide_eq_true_eq]
    exact ⟨fun he => Rows.eq_of_key_eq hn hb ha he, fun he => by rw [he]⟩
  have hmem := fun b => @Rows.mem_updateWhere_single _ (fun b : QraftTaskAttempt => decide (b.id = a.id)) f
    t.attempts a ha hrow b
  refine ⟨rfl, (hmem _).mpr (.inr rfl), hid, hnumber, hq, ?_, ?_⟩
  · intro b hb hne
    exact (hmem b).mpr (.inl ⟨hb, fun he => hne (by rw [he])⟩)
  · intro b hb
    rcases (hmem b).mp hb with ⟨hb, hne⟩ | he
    · exact .inr (.inl ⟨hb, fun he => hne (Rows.eq_of_key_eq hn hb ha he)⟩)
    · exact .inl he

theorem rewrites_scheduleAttempt (ha : a ∈ t.attempts) {id : AttemptId} {number : Nat} {notBefore : Time}
    {cluster : Option String} {now : Time} (hid : ∀ b ∈ t.attempts, b.id = a.id → b = a)
    (h : t.scheduleAttempt id number notBefore cluster now = .ok t') : Rewrites t t' a a := by
  obtain ⟨hid', hrows⟩ := scheduleAttempt_attempts h
  refine ⟨hid', ?_, rfl, rfl, rfl, ?_, ?_⟩
  · rw [hrows]
    exact List.mem_append_left _ ha
  · intro b hb _
    rw [hrows]
    exact List.mem_append_left _ hb
  · intro b hb
    rw [hrows] at hb
    rcases List.mem_append.mp hb with hb | hb
    · by_cases he : b.id = a.id
      · exact .inl (hid b hb he)
      · exact .inr (.inl ⟨hb, he⟩)
    · rw [List.mem_singleton.mp hb]
      exact .inr (.inr ⟨rfl, rfl⟩)

theorem rewrites_markRouted (hn : (t.attempts.map fun b => b.id).Nodup) (ha : a ∈ t.attempts) :
    Rewrites t (t.markRouted a.id) a { a with routed := true } :=
  rewrites_updateAttempt hn ha rfl rfl rfl

/-- A resolution decides the attempt and takes the task from RUNNING; a retry leaves it routed. -/
theorem Resolved.rewrites {number : Nat} {newId : AttemptId} {now : Time} {routing : Routing}
    (h : Resolved t a.id number newId now t' routing) (hn : (t.attempts.map fun b => b.id).Nodup)
    (ha : a ∈ t.attempts) (hnew : ∀ b ∈ t.attempts, b.id ≠ newId) :
    ∃ a', Rewrites t t' a a' ∧ a'.success ≠ none ∧ t'.status ≠ .running ∧
      (routing ≠ .due → a'.routed = true) := by
  have hdecide (success : Bool) (exc : Option String) (completed : Time) :=
    @rewrites_updateAttempt t a hn ha (fun b => b.decide success exc completed) rfl rfl rfl
  have hnodup (success : Bool) (exc : Option String) (completed : Time) :
      ((t.updateAttempt a.id fun b => b.decide success exc completed).attempts.map fun b => b.id).Nodup := by
    rw [updateAttempt, Rows.map_updateWhere]
    · exact hn
    · exact fun _ _ _ => rfl
  cases h with
  | @decided _ u success exc completed s hs hu ht =>
    have hrows : Rewrites t u a (a.decide success exc completed) := by
      rw [hu]
      exact (hdecide success exc completed).setStatus s now
    have hstatus : u.status ≠ .running := by
      rw [hu, setStatus_status]
      rintro rfl
      cases hs
    rcases ht with rfl | rfl
    · exact ⟨_, hrows, Option.some_ne_none _, hstatus, fun hne => absurd rfl hne⟩
    · have hn' : (u.attempts.map fun b => b.id).Nodup := by
        rw [hu]
        exact hnodup success exc completed
      exact ⟨_, hrows.trans (rewrites_markRouted hn' hrows.mem), Option.some_ne_none _, hstatus, fun _ => rfl⟩
  | @retried u exc completed policy notBefore cluster hp hl hu =>
    have hold := hnodup false exc completed
    have hone : ∀ b ∈ (t.updateAttempt a.id fun b => b.decide false exc completed).attempts,
        b.id = (a.decide false exc completed).id → b = a.decide false exc completed :=
      fun b hb he => Rows.eq_of_key_eq hold hb (hdecide false exc completed).mem he
    have hrows := (hdecide false exc completed).trans
      (rewrites_scheduleAttempt (hdecide false exc completed).mem hone hu)
    have hstatus : u.status = .pending := by
      obtain ⟨-, b, -, -, -, -, -, -, rfl⟩ := scheduleAttempt_ok hu
      rfl
    have hn' : (u.attempts.map fun b => b.id).Nodup := by
      rw [(scheduleAttempt_attempts hu).2, List.map_append, List.nodup_append]
      refine ⟨hold, List.nodup_singleton _, ?_⟩
      intro i hi j hj he
      obtain ⟨b, hb, rfl⟩ := List.mem_map.mp hi
      obtain ⟨c, hc, rfl⟩ := Rows.mem_updateWhere.mp hb
      rw [List.map_singleton, List.mem_singleton] at hj
      apply hnew c hc
      rw [hj] at he
      split at he
      · exact he
      · exact he
    refine ⟨_, hrows.trans (rewrites_markRouted hn' hrows.mem), Option.some_ne_none _, ?_, fun _ => rfl⟩
    rw [markRouted, updateAttempt_status, hstatus]
    decide

/-- A retry finds its number free. -/
theorem handleTaskRetry_returns {number : Nat} (h : ∀ b ∈ t.attempts, b.attemptNumber ≠ number + 1)
    (exc : Option String) (retryAfter : Option ℚ) (newId : AttemptId) (env : Env) :
    ∃ r, t.handleTaskRetry number exc retryAfter newId env = .ok r := by
  rw [handleTaskRetry]
  cases t.retryPolicy with
  | none => exact ⟨_, rfl⟩
  | some policy =>
    dsimp only
    split
    · have hfree : (t.attempts.any fun b => b.attemptNumber = number + 1) = false := by
        rw [List.any_eq_false]
        intro b hb
        simpa using h b hb
      rw [scheduleRetry, scheduleAttempt, hfree]
      exact ⟨_, rfl⟩
    · exact ⟨_, rfl⟩

private theorem number_free (hc : t.Coherent) (ha : a ∈ t.attempts) (hopen : a.success = none) {id : AttemptId}
    {f : QraftTaskAttempt → QraftTaskAttempt} (hf : ∀ b, (f b).attemptNumber = b.attemptNumber) :
    ∀ b ∈ (t.updateAttempt id f).attempts, b.attemptNumber ≠ a.attemptNumber + 1 := by
  intro b hb
  have hlast := (hc.undecided ha hopen).2.1
  obtain ⟨b', hb', rfl⟩ := Rows.mem_updateWhere.mp hb
  have hle := (hc.number_bounds hb').2
  split
  · rw [hf]
    omega
  · omega

theorem handleResult_returns (hc : t.Coherent) (ha : a ∈ t.attempts) (hopen : a.success = none)
    (result : Q2Task) (cancelled : Bool) (newId : AttemptId) (env : Env) :
    ∃ r, t.handleResult a.id result cancelled newId env = .ok r := by
  rw [handleResult]
  split
  · exact ⟨_, rfl⟩
  · rename_i attempt hfind
    have hsel := List.find?_some hfind
    obtain ⟨hid, -⟩ := of_decide_eq_true hsel
    rw [hc.eq_of_id (List.mem_of_find?_eq_some hfind) ha hid]
    dsimp only
    split
    · exact ⟨_, rfl⟩
    · have hfree := @number_free t a hc ha hopen a.id
        (fun b => b.decide result.success (if result.success then none else result.exceptionClass) result.stopped)
        fun _ => rfl
      obtain ⟨r, hr⟩ := @handleTaskRetry_returns
        ((t.updateAttempt a.id fun b => b.decide result.success
          (if result.success then none else result.exceptionClass) result.stopped).setStatus
            (if result.success then .succeeded else .failed) env.now) a.attemptNumber hfree
        (if result.success then none else result.exceptionClass) result.retryAfter newId env
      rw [hr]
      exact ⟨_, rfl⟩

theorem reap_returns (hc : t.Coherent) (ha : a ∈ t.attempts) (hopen : a.success = none) (cancelled : Bool)
    (newId : AttemptId) (env : Env) : ∃ r, t.reap a cancelled newId env = .ok r := by
  rw [reap]
  split
  · exact ⟨_, rfl⟩
  · dsimp only
    split
    · exact ⟨_, rfl⟩
    · have hfree := @number_free t a hc ha hopen a.id
        (fun b => b.decide false (some (orphanException a)) env.now) fun _ => rfl
      obtain ⟨r, hr⟩ := handleTaskRetry_returns hfree (some (orphanException a)) none newId env
      rw [hr]
      exact ⟨_, rfl⟩

end
end QraftTask

namespace SweepItem

section
variable {c : SweepConf} {l l' : Lifecycle} {t t' u : QraftTask} {a b : QraftTaskAttempt} {x y : SweepItem}

/-- A wanted attempt is open in a running task, or resolved and not routed. -/
theorem Wanted.kind (h : x.Wanted c l t a) :
    (a.success = none ∧ t.status = .running ∧ a.state = .queued) ∨ (a.success ≠ none ∧ a.routed = false) := by
  have hopen (hu : t.unresolved a l.q2Rows = true) :
      a.success = none ∧ t.status = .running ∧ a.state = .queued := by
    rw [unresolved] at hu
    simp only [Bool.and_eq_true, decide_eq_true_eq] at hu
    exact ⟨hu.1.1.1, hu.1.1.2, hu.1.2⟩
  cases x with
  | finished result => exact .inl ⟨h.2.2.2.2.1, h.2.2.2.1, h.2.2.2.2.2⟩
  | unrouted => exact .inr ⟨h.1, h.2.1⟩
  | stale => exact .inl (hopen h.1)
  | unstarted => exact .inl (hopen h.2.1)

/-- The filters read the row, its task's status and three tables that a sweep does not write. -/
theorem Wanted.congr (h : x.Wanted c l t a) (hrows : l'.q2Rows = l.q2Rows) (hresults : l'.results = l.results)
    (hqueue : l'.queue = l.queue) (hstatus : a.success = none → t'.status = t.status) : x.Wanted c l' t' a := by
  have hopen (hu : t.unresolved a l.q2Rows = true) : t'.unresolved a l'.q2Rows = true := by
    have hnone : a.success = none := by
      rw [unresolved] at hu
      simp only [Bool.and_eq_true, decide_eq_true_eq] at hu
      exact hu.1.1.1
    rw [unresolved, hstatus hnone, hrows]
    exact hu
  cases x with
  | finished result =>
    obtain ⟨hrow, hfind, hstopped, hrun, hnone, hstate⟩ := h
    refine ⟨by rw [hrows]; exact hrow, by rw [hresults]; exact hfind, hstopped, ?_, hnone, hstate⟩
    rw [hstatus hnone]
    exact hrun
  | unrouted => exact h
  | stale => exact ⟨hopen h.1, h.2⟩
  | unstarted => exact ⟨h.1, hopen h.2.1, h.2.2.1, h.2.2.2.1, by rw [hqueue]; exact h.2.2.2.2⟩

/-- One attempt, one item. -/
theorem Wanted.unique (hx : x.Wanted c l t a) (hnx : x.Names t a) (hy : y.Wanted c l t a) (hny : y.Names t a) :
    x = y := by
  have hq2 (hu : t.unresolved a l.q2Rows = true) {q : Q2TaskId} (hq : a.q2TaskId = some q) : q ∉ l.q2Rows := by
    rw [unresolved, hq] at hu
    simpa using (Bool.and_eq_true_iff.mp hu).2
  have hsuccess (hu : t.unresolved a l.q2Rows = true) : a.success = none := by
    rw [unresolved] at hu
    simp only [Bool.and_eq_true, decide_eq_true_eq] at hu
    exact hu.1.1.1
  cases x with
  | finished r =>
    cases y with
    | finished r' =>
      have hid : r.id = r'.id := Option.some.inj ((Eq.symm hnx).trans hny)
      have hfind := hx.2.1
      rw [hid, hy.2.1] at hfind
      rw [Option.some.inj hfind]
    | unrouted => exact absurd hx.2.2.2.2.1 hy.1
    | stale => exact absurd hx.1 (hq2 hy.1 hnx)
    | unstarted => exact absurd hx.1 (hq2 hy.2.1 hnx)
  | unrouted =>
    cases y with
    | finished r => exact absurd hy.2.2.2.2.1 hx.1
    | unrouted => rw [← hnx.1, ← hnx.2.1, ← hnx.2.2, ← hny.1, ← hny.2.1, ← hny.2.2]
    | stale => exact absurd (hsuccess hy.1) hx.1
    | unstarted => exact absurd (hsuccess hy.2.1) hx.1
  | stale =>
    cases y with
    | finished r => exact absurd hy.1 (hq2 hx.1 hny)
    | unrouted => exact absurd (hsuccess hx.1) hy.1
    | stale => rw [← hnx.1, ← hnx.2.1, ← hnx.2.2, ← hny.1, ← hny.2.1, ← hny.2.2]
    | unstarted =>
      have hbeat := hx.2
      rw [hy.2.2.1] at hbeat
      cases hbeat
  | unstarted =>
    cases y with
    | finished r => exact absurd hy.1 (hq2 hx.2.1 hny)
    | unrouted => exact absurd (hsuccess hx.2.1) hy.1
    | stale =>
      have hbeat := hy.2
      rw [hx.2.2.1] at hbeat
      cases hbeat
    | unstarted => rw [← hnx.1, ← hnx.2.1, ← hnx.2.2, ← hny.1, ← hny.2.1, ← hny.2.2]

theorem Names.unique {st : TaskStore} (hd : st.Distinct) (ht : t ∈ st.tasks) (ha : a ∈ t.attempts)
    (hu : u ∈ st.tasks) (hb : b ∈ u.attempts) (h : x.Names t a) (h' : x.Names u b) : t = u ∧ a = b := by
  cases x with
  | finished r => exact hd.eq_of_message ht ha hu hb h h'
  | unrouted => exact hd.eq_of_id ht ha hu hb (h.2.1.trans h'.2.1.symm)
  | stale => exact hd.eq_of_id ht ha hu hb (h.2.1.trans h'.2.1.symm)
  | unstarted => exact hd.eq_of_id ht ha hu hb (h.2.1.trans h'.2.1.symm)

theorem Names.rewritten {a' : QraftTaskAttempt} (h : x.Names t a) (hid : t'.id = t.id) (hkey : a'.id = a.id)
    (hnumber : a'.attemptNumber = a.attemptNumber) (hq : a'.q2TaskId = a.q2TaskId) : x.Names t' a' := by
  cases x with
  | finished r => exact hq.trans h
  | unrouted => exact ⟨hid.trans h.1, hkey.trans h.2.1, hnumber.trans h.2.2⟩
  | stale => exact ⟨hid.trans h.1, hkey.trans h.2.1, hnumber.trans h.2.2⟩
  | unstarted => exact ⟨hid.trans h.1, hkey.trans h.2.1, hnumber.trans h.2.2⟩

end
end SweepItem

/-- A task table in order: rows under their keys, and one open attempt a task, its last. -/
structure TaskStore.Ready (st : TaskStore) : Prop where
  distinct : st.Distinct
  coherent : ∀ t ∈ st.tasks, t.Coherent

namespace Lifecycle

/-- What a turn wrote: one attempt of one task, resolved by it or marked as routed. -/
structure Turned (l l' : Lifecycle) (t t' : QraftTask) (a a' : QraftTaskAttempt) : Prop where
  rows : l'.q2Rows = l.q2Rows
  results : l'.results = l.results
  queue : l'.queue = l.queue
  tasks : ∀ r, r ∈ l'.store.tasks ↔ (r ∈ l.store.tasks ∧ r ≠ t) ∨ r = t'
  rewrites : Rewrites t t' a a'
  decided : a'.success ≠ none
  took : (a.success = none ∧ t'.status ≠ .running) ∨ (a.success ≠ none ∧ a.routed = false ∧ t'.status = t.status)

section
variable {c : SweepConf} {l l' : Lifecycle} {t t' : QraftTask} {a a' : QraftTaskAttempt} {x y : SweepItem} {j k : Nat}

private theorem open_unique (hc : t.Coherent) {b : QraftTaskAttempt} (ha : a ∈ t.attempts) (hb : b ∈ t.attempts)
    (hna : a.success = none) (hnb : b.success = none) : a = b :=
  hc.eq_of_number ha hb ((hc.undecided ha hna).2.1.trans (hc.undecided hb hnb).2.1.symm)

/-- Other items are listed as before. -/
private theorem Turned.keeps (h : Turned l l' t t' a a') (hr : l.store.Ready) (ht : t ∈ l.store.tasks)
    (ha : a ∈ t.attempts) (hx : x.Names t a) (hw : x.Wanted c l t a) (hne : y ≠ x) (hy : l.Lists c j y) :
    l'.Lists c j y := by
  obtain ⟨hj, u, hu, b, hb, hny, hwy⟩ := hy
  refine ⟨hj, ?_⟩
  by_cases hut : u = t
  · subst hut
    have hid : b.id ≠ a.id := by
      intro hid
      have hba := (hr.distinct.eq_of_id hu hb hu ha hid).2
      subst hba
      exact hne (hwy.unique hny hw hx)
    refine ⟨t', (h.tasks t').mpr (.inr rfl), b, h.rewrites.others b hb hid, ?_, ?_⟩
    · exact hny.rewritten h.rewrites.id rfl rfl rfl
    · refine hwy.congr h.rows h.results h.queue ?_
      intro hopen
      rcases h.took with ⟨hna, -⟩ | ⟨-, -, hstatus⟩
      · exact absurd (by rw [open_unique (hr.coherent u hu) hb ha hopen hna]) hid
      · exact hstatus
  · exact ⟨u, (h.tasks u).mpr (.inl ⟨hu, hut⟩), b, hb, hny, hwy.congr h.rows h.results h.queue fun _ => rfl⟩

/-- Nothing is listed that was not, and a routed attempt is no more. -/
private theorem Turned.adds (h : Turned l l' t t' a a') (hr : l.store.Ready) (ht : t ∈ l.store.tasks)
    (ha : a ∈ t.attempts) (hx : x.Names t a) (hrouted : a'.routed = true) (hy : l'.Lists c j y) :
    l.Lists c j y ∧ y ≠ x := by
  obtain ⟨hj, u, hu, b, hb, hny, hwy⟩ := hy
  have hback {v : QraftTask} (hv : v ∈ l.store.tasks) (hbv : b ∈ v.attempts) (hnv : y.Names v b)
      (hstatus : b.success = none → v.status = u.status) (hother : b ∈ t.attempts → b.id ≠ a.id) :
      l.Lists c j y ∧ y ≠ x := by
    refine ⟨⟨hj, v, hv, b, hbv, hnv, hwy.congr h.rows.symm h.results.symm h.queue.symm hstatus⟩, ?_⟩
    rintro rfl
    obtain ⟨hvt, hba⟩ := hnv.unique hr.distinct hv hbv ht ha hx
    exact hother (hba ▸ ha) (by rw [hba])
  rcases (h.tasks u).mp hu with ⟨hul, hut⟩ | rfl
  · refine hback hul hb hny (fun _ => rfl) ?_
    intro hbt
    exact absurd (hr.distinct.eq_of_id hul hb ht hbt rfl).1 hut
  · rcases h.rewrites.origin b hb with hb | ⟨hb, hne⟩ | ⟨hs, hnone⟩
    · rcases hwy.kind with ⟨hopen, -⟩ | ⟨-, hunrouted⟩
      · exact absurd (hb ▸ hopen) h.decided
      · rw [hb, hrouted] at hunrouted
        cases hunrouted
    · refine hback ht hb (hny.rewritten h.rewrites.id.symm rfl rfl rfl) ?_ fun _ => hne
      intro hopen
      rcases hwy.kind with ⟨-, hrun, -⟩ | ⟨hclosed, -⟩
      · rcases h.took with ⟨-, hstopped⟩ | ⟨-, -, hstatus⟩
        · exact absurd hrun hstopped
        · exact hstatus.symm
      · exact absurd hopen hclosed
    · rcases hwy.kind with ⟨-, -, hqueued⟩ | ⟨hclosed, -⟩
      · rw [hs] at hqueued
        cases hqueued
      · exact absurd hnone hclosed

private theorem Turned.stays (h : Turned l l' t t' a a') (hr : l.store.Ready) (ht : t ∈ l.store.tasks)
    (ha : a ∈ t.attempts) (hw : x.Wanted c l t a) (hy : l.Processed y) : l'.Processed y := by
  obtain ⟨u, hu, b, hb, hny, hdecided, hrouted⟩ := hy
  by_cases hut : u = t
  · subst hut
    have hid : b.id ≠ a.id := by
      intro hid
      have hba := (hr.distinct.eq_of_id hu hb hu ha hid).2
      subst hba
      rcases hw.kind with ⟨hopen, -⟩ | ⟨-, hunrouted⟩
      · exact hdecided hopen
      · rw [hrouted] at hunrouted
        cases hunrouted
    exact ⟨t', (h.tasks t').mpr (.inr rfl), b, h.rewrites.others b hb hid,
      hny.rewritten h.rewrites.id rfl rfl rfl, hdecided, hrouted⟩
  · exact ⟨u, (h.tasks u).mpr (.inl ⟨hu, hut⟩), b, hb, hny, hdecided, hrouted⟩

/-- A row is written back in order. -/
private theorem Ready.commit (hr : l.store.Ready) (ht : t ∈ l.store.tasks) (hcarries : Carries l.store.nextId t t')
    (hc : t'.Coherent) : (l.commit t').store.Ready := by
  refine ⟨(hr.distinct.save ht hcarries).1, ?_⟩
  intro r hmem
  rcases (mem_save hr.distinct.tasks ht hcarries.id r).mp hmem with ⟨hmem, -⟩ | he
  · exact hr.coherent r hmem
  · rw [he]
    exact hc

private theorem mem_commit (hr : l.store.Ready) (ht : t ∈ l.store.tasks) (hid : t'.id = t.id) (r : QraftTask) :
    r ∈ (l.commit t').store.tasks ↔ (r ∈ l.store.tasks ∧ r ≠ t) ∨ r = t' :=
  mem_save hr.distinct.tasks ht hid r

/-- What a resolution and its routing leave, if neither raises and if one does. -/
private theorem settle_spec (hr : l.store.Ready) (ht : t ∈ l.store.tasks) (ha : a ∈ t.attempts)
    (hopen : a.success = none) (hq : a.q2TaskId ≠ none) {now : Time} {routing : Routing}
    (hres : Resolved t a.id a.attemptNumber l.store.nextId now t' routing) (f : Option Fault) :
    ((l.settle f a.id (.ok (t', routing))).2 = true ↔ f ≠ none) ∧
      (l.settle f a.id (.ok (t', routing))).1.store.Ready ∧
      ((f ≠ none ∧ (l.settle f a.id (.ok (t', routing))).1 = l) ∨
        ∃ u b, Turned l (l.settle f a.id (.ok (t', routing))).1 t u a b ∧ (f = none → b.routed = true)) := by
  have hnew : ∀ b ∈ t.attempts, b.id ≠ l.store.nextId := fun b hb => Nat.ne_of_lt ((hr.distinct.bound t ht).2 b hb).1
  have hc := (hres.coherent (hr.coherent t ht) ha hopen hq hnew).1
  obtain ⟨a', hrows, hdecided, hstatus, hrouted⟩ := hres.rewrites (hr.coherent t ht).ids ha hnew
  have hready := Ready.commit hr ht hres.carries hc
  have hturned : Turned l (l.commit t') t t' a a' :=
    ⟨rfl, rfl, rfl, mem_commit hr ht hrows.id, hrows, hdecided, .inl ⟨hopen, hstatus⟩⟩
  cases f with
  | some fault =>
    cases fault with
    | resolution => exact ⟨iff_of_true rfl nofun, hr, .inl ⟨nofun, rfl⟩⟩
    | routing => exact ⟨iff_of_true rfl nofun, hready, .inr ⟨t', a', hturned, nofun⟩⟩
  | none =>
    cases routing with
    | dropped => exact ⟨iff_of_false nofun (fun h => h rfl), hready, .inr ⟨t', a', hturned, fun _ => hrouted nofun⟩⟩
    | absorbed => exact ⟨iff_of_false nofun (fun h => h rfl), hready, .inr ⟨t', a', hturned, fun _ => hrouted nofun⟩⟩
    | due =>
      have hmem : t' ∈ (l.commit t').store.tasks := (mem_commit hr ht hrows.id t').mpr (.inr rfl)
      have hmark := rewrites_markRouted hc.ids hrows.mem
      rw [hrows.key] at hmark
      have hcarries : Carries (l.commit t').store.nextId t' (t'.markRouted a.id) :=
        .of_holds rfl (holds_ite _ holds_routed) rfl
      refine ⟨iff_of_false nofun (fun h => h rfl), Ready.commit hready hmem hcarries (hc.markRouted a.id).1,
        .inr ⟨_, _, ⟨rfl, rfl, rfl, ?_, hrows.trans hmark, hdecided, .inl ⟨hopen, hstatus⟩⟩, fun _ => rfl⟩⟩
      intro r
      have hsecond := mem_commit hready hmem (show (t'.markRouted a.id).id = t'.id from rfl) r
      rw [mem_commit hr ht hrows.id] at hsecond
      refine hsecond.trans ?_
      constructor
      · rintro (⟨⟨hold, hne⟩ | he, hne'⟩ | he)
        · exact .inl ⟨hold, hne⟩
        · exact absurd he hne'
        · exact .inr he
      · rintro (⟨hold, hne⟩ | he)
        · refine .inl ⟨.inl ⟨hold, hne⟩, ?_⟩
          intro he
          exact hne (Rows.eq_of_key_eq hr.distinct.tasks hold ht (by rw [he]; exact hrows.id))
        · exact .inr he

private structure TurnSpec (c : SweepConf) (fault : SweepItem → Option Fault) (l : Lifecycle) (x : SweepItem)
    (t : QraftTask) (a : QraftTaskAttempt) : Prop where
  raised : (l.sweepTurn c fault x).2 = true ↔ fault x ≠ none
  ready : (l.sweepTurn c fault x).1.store.Ready
  wrote : (fault x ≠ none ∧ (l.sweepTurn c fault x).1 = l) ∨
    ∃ u b, Turned l (l.sweepTurn c fault x).1 t u a b ∧ (fault x = none → b.routed = true)

private theorem find_of_mem (hr : l.store.Ready) (ht : t ∈ l.store.tasks) (ha : a ∈ t.attempts) :
    l.find t.id a.id = some (t, a) := by
  have htask : l.store.task? t.id = some t := Rows.get?_of_mem hr.distinct.tasks ht
  have hrow : t.attempt? a.id = some a := Rows.get?_of_mem (hr.coherent t ht).ids ha
  rw [find, htask, Option.bind_some, hrow]
  rfl

private theorem reapOne_spec {f : Option Fault} (hr : l.store.Ready) (ht : t ∈ l.store.tasks) (ha : a ∈ t.attempts)
    (hu : t.unresolved a l.q2Rows = true) (hbeat : (a.heartbeatAt.all fun h => h < c.cutoff) = true) :
    ((l.reapOne c f t.id a.id).2 = true ↔ f ≠ none) ∧ (l.reapOne c f t.id a.id).1.store.Ready ∧
      ((f ≠ none ∧ (l.reapOne c f t.id a.id).1 = l) ∨
        ∃ u b, Turned l (l.reapOne c f t.id a.id).1 t u a b ∧ (f = none → b.routed = true)) := by
  rw [unresolved] at hu
  simp only [Bool.and_eq_true, decide_eq_true_eq, Option.any_eq_true] at hu
  obtain ⟨⟨⟨hopen, hrun⟩, -⟩, q, hq, hnot⟩ := hu
  have hreap : t.reapable a c.cutoff (l.q2Row a) = true := by
    rw [reapable, hopen, hrun, hbeat, q2Row, hq]
    simpa using hnot
  obtain ⟨⟨t', routing⟩, hok⟩ := reap_returns (hr.coherent t ht) ha hopen (l.ownerCancelled t) l.store.nextId c.env
  rw [reapOne, find_of_mem hr ht ha]
  dsimp only
  rw [if_pos hreap, hok]
  exact settle_spec hr ht ha hopen (by rw [hq]; exact Option.some_ne_none q) (reap_ok hrun hok) f

private theorem turn_spec {fault : SweepItem → Option Fault} (hr : l.store.Ready) (ht : t ∈ l.store.tasks)
    (ha : a ∈ t.attempts) (hx : x.Names t a) (hw : x.Wanted c l t a) : TurnSpec c fault l x t a := by
  cases x with
  | finished result =>
    obtain ⟨-, -, -, -, hopen, -⟩ := hw
    have hq : a.q2TaskId = some result.id := hx
    have hresolve := hr.distinct.resolveAttempt_of_mem ht ha hq
    obtain ⟨⟨t', routing⟩, hok⟩ :=
      handleResult_returns (hr.coherent t ht) ha hopen result (l.ownerCancelled t) l.store.nextId c.env
    have hres : Resolved t a.id a.attemptNumber l.store.nextId c.env.now t' routing := by
      rcases handleResult_ok hok with ⟨-, hclosed⟩ | ⟨b, hb, hid, -, hres⟩
      · exact absurd hopen (hclosed a ha rfl)
      · rw [(hr.coherent t ht).eq_of_id hb ha hid] at hres
        exact hres
    have hspec := settle_spec hr ht ha hopen (by rw [hq]; exact Option.some_ne_none _) hres (fault (.finished result))
    have heq : l.sweepTurn c fault (.finished result) =
        l.settle (fault (.finished result)) a.id (.ok (t', routing)) := by
      rw [sweepTurn, hresolve, ← hok]
    exact ⟨by rw [heq]; exact hspec.1, by rw [heq]; exact hspec.2.1, by rw [heq]; exact hspec.2.2⟩
  | unrouted task attempt number =>
    obtain ⟨rfl, rfl, rfl⟩ := hx
    obtain ⟨hdecided, hunrouted, -⟩ := hw
    have htask : l.store.task? t.id = some t := Rows.get?_of_mem hr.distinct.tasks ht
    cases hf : fault (.unrouted t.id a.id a.attemptNumber) with
    | some f =>
      have heq : l.sweepTurn c fault (.unrouted t.id a.id a.attemptNumber) = (l, true) := by rw [sweepTurn, hf]
      refine ⟨?_, ?_, .inl ⟨?_, ?_⟩⟩
      · rw [heq, hf]
        exact iff_of_true rfl (Option.some_ne_none f)
      · rw [heq]
        exact hr
      · rw [hf]
        exact Option.some_ne_none f
      · rw [heq]
    | none =>
      have heq : l.sweepTurn c fault (.unrouted t.id a.id a.attemptNumber) = (l.commit (t.markRouted a.id), false) := by
        rw [sweepTurn, hf, htask]
        rfl
      have hmark := rewrites_markRouted (hr.coherent t ht).ids ha
      have hcarries : Carries l.store.nextId t (t.markRouted a.id) :=
        .of_holds rfl (holds_ite _ holds_routed) rfl
      refine ⟨?_, ?_, .inr ⟨t.markRouted a.id, { a with routed := true }, ?_, fun _ => rfl⟩⟩
      · rw [heq, hf]
        exact iff_of_false nofun fun h => h rfl
      · rw [heq]
        exact Ready.commit hr ht hcarries ((hr.coherent t ht).markRouted a.id).1
      · rw [heq]
        exact ⟨rfl, rfl, rfl, mem_commit hr ht hmark.id, hmark, hdecided, .inr ⟨hdecided, hunrouted, rfl⟩⟩
  | stale task attempt number =>
    obtain ⟨rfl, rfl, rfl⟩ := hx
    obtain ⟨hu, hbeat⟩ := hw
    have hall : (a.heartbeatAt.all fun h => h < c.cutoff) = true := by
      cases hbeat' : a.heartbeatAt with
      | none => rfl
      | some h =>
        rw [hbeat'] at hbeat
        exact hbeat
    have hspec := @reapOne_spec c l t a (fault (.stale t.id a.id a.attemptNumber)) hr ht ha hu hall
    exact ⟨hspec.1, hspec.2.1, hspec.2.2⟩
  | unstarted task attempt number =>
    obtain ⟨rfl, rfl, rfl⟩ := hx
    obtain ⟨-, hu, hbeat, -⟩ := hw
    have hspec := @reapOne_spec c l t a (fault (.unstarted t.id a.id a.attemptNumber)) hr ht ha hu (by rw [hbeat]; rfl)
    exact ⟨hspec.1, hspec.2.1, hspec.2.2⟩

/-- An item is listed by the query of its kind. -/
theorem Lists.query_eq (h : l.Lists c k x) : x.query = k := h.1

private theorem exists_listed (c : SweepConf) (l : Lifecycle) (k : Nat) :
    ∃ items, Sweep.Enumerates SweepItem.ordering items (l.Lists c k) := by
  let items (t : QraftTask) (a : QraftTaskAttempt) : List SweepItem :=
    [.unrouted t.id a.id a.attemptNumber, .stale t.id a.id a.attemptNumber, .unstarted t.id a.id a.attemptNumber]
  apply Sweep.exists_enumerates SweepItem.ordering (show ∀ x, l.Lists c k x → x ∈ l.results.map SweepItem.finished ++
    l.store.tasks.flatMap fun t => t.attempts.flatMap (items t) from ?_)
  rintro x ⟨-, t, ht, a, ha, hx, hw⟩
  have hrow (hmem : x ∈ items t a) : x ∈ l.store.tasks.flatMap fun t => t.attempts.flatMap (items t) :=
    List.mem_flatMap.mpr ⟨t, ht, List.mem_flatMap.mpr ⟨a, ha, hmem⟩⟩
  rw [List.mem_append]
  cases x with
  | finished result =>
    have hresult := List.mem_reverse.mp (List.mem_of_find?_eq_some hw.2.1)
    exact .inl (List.mem_map.mpr ⟨result, hresult, rfl⟩)
  | unrouted task attempt number =>
    obtain ⟨rfl, rfl, rfl⟩ := hx
    exact .inr (hrow (by simp [items]))
  | stale task attempt number =>
    obtain ⟨rfl, rfl, rfl⟩ := hx
    exact .inr (hrow (by simp [items]))
  | unstarted task attempt number =>
    obtain ⟨rfl, rfl, rfl⟩ := hx
    exact .inr (hrow (by simp [items]))

/-- The loops take up one listed attempt a turn. -/
theorem sweepTurn_discipline (c : SweepConf) (fault : SweepItem → Option Fault) :
    Sweep.Discipline (sweepTurn c fault) SweepItem.ordering (Lists c) (fun l => l.store.Ready) Processed
      (fun x => fault x ≠ none) where
  inv := by
    rintro l k x hr ⟨-, t, ht, a, ha, hx, hw⟩
    exact (turn_spec hr ht ha hx hw).ready
  outcome := by
    rintro l k x hr ⟨-, t, ht, a, ha, hx, hw⟩
    exact (turn_spec hr ht ha hx hw).raised
  done := by
    rintro l k x hr ⟨-, t, ht, a, ha, hx, hw⟩ hok
    rcases (@turn_spec c l t a x fault hr ht ha hx hw).wrote with ⟨hraised, -⟩ | ⟨u, b, hturned, hrouted⟩
    · exact absurd hraised hok
    · exact ⟨u, (hturned.tasks u).mpr (.inr rfl), b, hturned.rewrites.mem,
        hx.rewritten hturned.rewrites.id hturned.rewrites.key hturned.rewrites.number hturned.rewrites.message, hturned.decided,
        hrouted (not_not.mp hok)⟩
  keeps := by
    rintro l k x hr ⟨-, t, ht, a, ha, hx, hw⟩ j y hne hy
    rcases (@turn_spec c l t a x fault hr ht ha hx hw).wrote with ⟨-, heq⟩ | ⟨u, b, hturned, -⟩
    · rw [heq]
      exact hy
    · exact hturned.keeps hr ht ha hx hw hne hy
  adds := by
    rintro l k x hr ⟨-, t, ht, a, ha, hx, hw⟩ hok j y hy
    rcases (@turn_spec c l t a x fault hr ht ha hx hw).wrote with ⟨hraised, -⟩ | ⟨u, b, hturned, hrouted⟩
    · exact absurd hraised hok
    · exact hturned.adds hr ht ha hx (hrouted (not_not.mp hok)) hy
  stays := by
    rintro l k x hr ⟨-, t, ht, a, ha, hx, hw⟩ y hy
    rcases (@turn_spec c l t a x fault hr ht ha hx hw).wrote with ⟨-, heq⟩ | ⟨u, b, hturned, -⟩
    · rw [heq]
      exact hy
    · exact hturned.stays hr ht ha hw hy
  undone := by
    rintro l k x hr ⟨-, t, ht, a, ha, hx, hw⟩ ⟨u, hu, b, hb, hxb, hdecided, hrouted⟩
    obtain ⟨rfl, rfl⟩ := hx.unique hr.distinct ht ha hu hb hxb
    rcases hw.kind with ⟨hopen, -⟩ | ⟨-, hunrouted⟩
    · exact hdecided hopen
    · rw [hrouted] at hunrouted
      cases hunrouted
  rank := by
    intro l j k x hj hk
    exact hj.query_eq.symm.trans hk.query_eq
  finite := exists_listed c

end
end Lifecycle

/-- One sweep with no other process at work resolves and routes every listed attempt that does not
raise, whichever way the database puts rows of equal ordering, exactly when those that raise all come
from a later query than those that do not, or from the same query under a later ordering. -/
theorem sweep_isolated_iff (c : SweepConf) (fault : SweepItem → Option Fault) {l : Lifecycle}
    (hr : l.store.Ready) : (∃ out, ReapOrphans c fault l out) ∧
    ((∀ out, ReapOrphans c fault l out → ∀ k y, l.Lists c k y → fault y = none → Lifecycle.Processed y out.1) ↔
      ∀ j k x y, l.Lists c j x → l.Lists c k y → fault x ≠ none → fault y = none →
        y.query < x.query ∨ (y.query = x.query ∧ y.ordering < x.ordering)) := by
  have hd := Lifecycle.sweepTurn_discipline c fault
  have hall : ∀ k x, l.Lists c k x → k ∈ ([[0], [1], [2, 3]] : List (List Nat)).flatten := by
    intro k x hx
    rw [← hx.query_eq]
    cases x <;> simp [SweepItem.query]
  refine ⟨hd.exists_phases _ l, ?_⟩
  have hiff := hd.reaches_iff (by decide) hr hall
  constructor
  · intro hreach j k x y hx hy hxr hok
    rw [hx.query_eq, hy.query_eq]
    exact hiff.mp (fun out hout k y hy hok => hreach out hout k y hy (not_not.mp hok)) j k x y hx hy hxr
      (not_not.mpr hok)
  · intro horder out hout k y hy hok
    refine hiff.mpr ?_ out hout k y hy (not_not.mpr hok)
    intro j k x y hx hy hxr hok
    rw [← hx.query_eq, ← hy.query_eq]
    exact horder j k x y hx hy hxr (not_not.mp hok)

namespace Lifecycle

/-- A run in order keeps the table in order. -/
theorem ready_of_reach {limit : Nat} {l : Lifecycle} (h : (lifecycleSystem limit).ReachWhen InOrder l) :
    l.store.Ready :=
  ⟨reach_distinct h.reach, (reach_sound h).coherent⟩

end Lifecycle

section
open Lifecycle

/-- One attempt is resolved and not routed, two are orphans, one of them on its second run. -/
private def lostWorker : Lifecycle where
  store := {
    tasks := [
      { id := 0
        status := .succeeded
        func := "app.tasks.load"
        dateUpdated := 10
        attempts := [{
          id := 1, attemptNumber := 1, q2TaskId := some 2, success := some true, dateCreated := 0
          dateCompleted := some 10 }] },
      { id := 3
        status := .running
        func := "app.tasks.index"
        dateUpdated := 0
        attempts := [{ id := 4, attemptNumber := 1, q2TaskId := some 5, dateCreated := 0, heartbeatAt := some 10 }] },
      { id := 6
        status := .running
        func := "app.tasks.embed"
        dateUpdated := 0
        attempts := [
          { id := 7, attemptNumber := 1, q2TaskId := some 8, success := some false, dateCreated := 0
            dateCompleted := some 5, routed := true },
          { id := 9, attemptNumber := 2, q2TaskId := some 10, dateCreated := 5, heartbeatAt := some 10 }] }]
    nextId := 11 }
  q2Rows := [2, 8]

private def nextMorning : SweepConf where
  env := { now := 1000 }
  grace := 90
  staleAfter := 3600
  queueReadable := true

private def reapFault (x : SweepItem) : Option Fault := if x = .stale 6 9 2 then some .resolution else none

private def routingFault (x : SweepItem) : Option Fault := if x = .unrouted 0 1 1 then some .routing else none

private theorem lostWorker_ready : lostWorker.store.Ready := by
  refine ⟨⟨by decide, ?_, ?_, ?_, ?_, ?_⟩, ?_⟩
  all_goals simp [lostWorker]
  exact ⟨⟨rfl, by decide, [], _, rfl, by simp, rfl, by decide, by decide⟩,
    ⟨rfl, by decide, [], _, rfl, by simp, rfl, by decide, by decide⟩,
    ⟨rfl, by decide, [_], _, rfl, by simp [Decided], rfl, by decide, by decide⟩⟩

private theorem lostWorker_lists (k : Nat) (x : SweepItem) : lostWorker.Lists nextMorning k x ↔
    (k = 1 ∧ x = .unrouted 0 1 1) ∨ (k = 2 ∧ x = .stale 3 4 1) ∨ (k = 2 ∧ x = .stale 6 9 2) := by
  constructor
  · rintro ⟨rfl, t, ht, a, ha, hx, hw⟩
    simp only [lostWorker, List.mem_cons, List.not_mem_nil, or_false] at ht
    cases x with
    | finished result =>
      have hrow := hw.1
      have hopen := hw.2.2.2.2.1
      rcases ht with rfl | rfl | rfl
      · obtain rfl := List.mem_singleton.mp ha
        cases hopen
      · obtain rfl := List.mem_singleton.mp ha
        rw [← show (5 : Nat) = result.id from Option.some.inj hx] at hrow
        exact absurd hrow (by decide)
      · simp only [List.mem_cons, List.not_mem_nil, or_false] at ha
        rcases ha with rfl | rfl
        · cases hopen
        · rw [← show (10 : Nat) = result.id from Option.some.inj hx] at hrow
          exact absurd hrow (by decide)
    | unrouted task attempt number =>
      obtain ⟨rfl, rfl, rfl⟩ := hx
      obtain ⟨hdecided, hunrouted, -⟩ := hw
      rcases ht with rfl | rfl | rfl
      · obtain rfl := List.mem_singleton.mp ha
        exact .inl ⟨rfl, rfl⟩
      · exact absurd (by rw [List.mem_singleton.mp ha]) hdecided
      · simp only [List.mem_cons, List.not_mem_nil, or_false] at ha
        rcases ha with rfl | rfl
        · cases hunrouted
        · exact absurd rfl hdecided
    | stale task attempt number =>
      obtain ⟨rfl, rfl, rfl⟩ := hx
      obtain ⟨hu, -⟩ := hw
      rcases ht with rfl | rfl | rfl
      · rw [List.mem_singleton.mp ha] at hu
        cases hu
      · obtain rfl := List.mem_singleton.mp ha
        exact .inr (.inl ⟨rfl, rfl⟩)
      · simp only [List.mem_cons, List.not_mem_nil, or_false] at ha
        rcases ha with rfl | rfl
        · cases hu
        · exact .inr (.inr ⟨rfl, rfl⟩)
    | unstarted task attempt number =>
      obtain ⟨-, hu, hbeat, -⟩ := hw
      rcases ht with rfl | rfl | rfl
      · rw [List.mem_singleton.mp ha] at hu
        cases hu
      · rw [List.mem_singleton.mp ha] at hbeat
        cases hbeat
      · simp only [List.mem_cons, List.not_mem_nil, or_false] at ha
        rcases ha with rfl | rfl
        · cases hu
        · cases hbeat
  · rintro (⟨rfl, rfl⟩ | ⟨rfl, rfl⟩ | ⟨rfl, rfl⟩)
    · exact ⟨rfl, _, List.mem_cons_self, _, List.mem_cons_self, ⟨rfl, rfl, rfl⟩, nofun, rfl, rfl⟩
    · exact ⟨rfl, _, List.mem_cons_of_mem _ List.mem_cons_self, _, List.mem_cons_self, ⟨rfl, rfl, rfl⟩, rfl, rfl⟩
    · exact ⟨rfl, _, List.mem_cons_of_mem _ (List.mem_cons_of_mem _ List.mem_cons_self), _,
        List.mem_cons_of_mem _ List.mem_cons_self, ⟨rfl, rfl, rfl⟩, rfl, rfl⟩

/-- The second run's reaping raises; the orphan of the same query on its first run is reached, and so
is the attempt to be routed. -/
theorem sweep_isolated_lostWorker :
    lostWorker.Lists nextMorning 2 (.stale 6 9 2) ∧ reapFault (.stale 6 9 2) ≠ none ∧
      ∀ out, ReapOrphans nextMorning reapFault lostWorker out →
        Processed (.unrouted 0 1 1) out.1 ∧ Processed (.stale 3 4 1) out.1 := by
  refine ⟨(lostWorker_lists 2 _).mpr (.inr (.inr ⟨rfl, rfl⟩)), by decide, fun out hout => ?_⟩
  have hreach := (sweep_isolated_iff nextMorning reapFault lostWorker_ready).2.mpr (by
    intro j k x y hx hy hxr hok
    have hlate : x = .stale 6 9 2 := by
      by_contra hne
      exact hxr (if_neg hne)
    rcases (lostWorker_lists k y).mp hy with ⟨-, rfl⟩ | ⟨-, rfl⟩ | ⟨-, rfl⟩
    · rw [hlate]
      decide
    · rw [hlate]
      decide
    · cases hok) out hout
  exact ⟨hreach 1 _ ((lostWorker_lists 1 _).mpr (.inl ⟨rfl, rfl⟩)) rfl,
    hreach 2 _ ((lostWorker_lists 2 _).mpr (.inr (.inl ⟨rfl, rfl⟩))) rfl⟩

/-- A resolved attempt whose routing raises leaves the orphan behind it unreaped. -/
theorem reap_stopped_by_routing : ∃ out, ReapOrphans nextMorning routingFault lostWorker out ∧
    lostWorker.Lists nextMorning 2 (.stale 3 4 1) ∧ routingFault (.stale 3 4 1) = none ∧
      ¬ Processed (.stale 3 4 1) out.1 := by
  have hnone : Sweep.Enumerates SweepItem.ordering [] (lostWorker.Lists nextMorning 0) := by
    refine ⟨List.nodup_nil, fun x => ?_, .nil⟩
    simp [lostWorker_lists]
  have hone : Sweep.Enumerates SweepItem.ordering [.unrouted 0 1 1] (lostWorker.Lists nextMorning 1) := by
    refine ⟨List.nodup_singleton _, fun x => ?_, List.pairwise_singleton _ _⟩
    simp [lostWorker_lists]
  refine ⟨(lostWorker, true), .next (.cons hnone .nil) rfl (.raised (.cons hone .nil) rfl),
    (lostWorker_lists _ _).mpr (.inr (.inl ⟨rfl, rfl⟩)), rfl, ?_⟩
  rintro ⟨t, ht, a, ha, ⟨hid, hrow, -⟩, hdecided, -⟩
  simp only [lostWorker, List.mem_cons, List.not_mem_nil, or_false] at ht
  rcases ht with rfl | rfl | rfl
  · cases hid
  · rw [List.mem_singleton.mp ha] at hdecided
    exact hdecided rfl
  · cases hid

end

end Qraft
