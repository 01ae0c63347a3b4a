import Qraft.Lifecycle.Members
import Qraft.Models.Python

/-! The arguments of a task over its attempts. The first message of a task carries the caller's own
values; every later one is rebuilt from the columns of the row. -/
namespace Qraft
open QraftTask

inductive Body (Obj : Type) where
  /-- `run_task`, with a function and its arguments. -/
  | runTask (call : PyCall Obj)
  | direct (call : PyCall Obj)

/-- The call that is made in the end. -/
def Body.target {Obj : Type} : Body Obj → PyCall Obj
  | .runTask call => call
  | .direct call => call

/-- A message handed to the broker, which may deliver it any number of times. -/
structure Message (Obj : Type) where
  task : TaskId
  attemptNumber : Nat
  body : Body Obj

structure MemberRow where
  func : String
  taskArgs : List Json
  taskKwargs : JsonDict

structure Accepted (Obj : Type) where
  task : TaskId
  call : PyCall Obj
  /-- Whether the values were read from a chain step's row. -/
  stored : Bool

structure Calling (Obj : Type) where
  life : Lifecycle := {}
  members : List MemberRow := []
  messages : List (Message Obj) := []
  /-- No function reads it. -/
  accepted : List (Accepted Obj) := []

inductive CallingEvent (Obj : Type) where
  /-- Any other step of the task table. -/
  | table (e : LifecycleEvent)
  /-- `async_task`, or a member of an iter or batch is created. -/
  | asyncTask (metadata : QraftTask) (cluster : Option String) (call : PyCall Obj)
  /-- A chain step's row or a graph node's is inserted. -/
  | insertMember (call : PyCall Obj)
  /-- `_queue_chain_step`. -/
  | queueChainStep (i : Nat) (metadata : QraftTask) (cluster : Option String)
  /-- `_dispatch_node`. -/
  | dispatchNode (i : Nat) (metadata : QraftTask) (cluster : Option String)
  | claimAndEnqueue (task : TaskId) (attempt : AttemptId) (cutoff : Time)

def PyCall.wrappedDispatch {Obj : Type} (call : PyCall Obj) : Body Obj :=
  if call.func = runnerPath then .direct call else .runTask call

/-- What `_enqueue` hands to the broker for an attempt. -/
def QraftTask.enqueueBody {Obj : Type} (t : QraftTask) (a : QraftTaskAttempt) : Body Obj :=
  let func := (orElse a.dispatchFunc (some runnerPath)).getD runnerPath
  let call : PyCall Obj := .ofColumns t.func t.taskArgs t.taskKwargs
  match a.dispatchArgs with
  | some args => .direct (.ofColumns func args [])
  | none =>
    if func = runnerPath then .runTask call
    else .direct (.positional func [.str t.func, .list call.args, .dict call.kwargs]
      ⟨trivial, call.args_keyed, call.kwargs_keyed, trivial⟩)

namespace Calling
variable {Obj : Type} (py : PyObjects Obj)

def metadata (base : QraftTask) (func : String) (columns : List Json × JsonDict) : QraftTask :=
  { base with func, taskArgs := columns.1, taskKwargs := columns.2 }

/-- `_create_and_enqueue`. The encoder runs first, and refuses a call it cannot store. -/
def createAndEnqueue (s : Calling Obj) (limit : Nat) (env : Env) (base : QraftTask)
    (cluster : Option String) (call : PyCall Obj) (stored : Bool) : Option (Calling Obj) :=
  (call.dump py).bind fun columns =>
    (s.life.step limit env (.asyncTask (metadata base call.func columns) cluster none)).map fun life =>
      { s with
        life
        messages := s.messages ++ [⟨s.life.store.nextId, 1, call.wrappedDispatch⟩]
        accepted := s.accepted ++ [⟨s.life.store.nextId, call, stored⟩] }

/-- The steps that are not given as events of their own. -/
def other : LifecycleEvent → Bool
  | .asyncTask .. | .scheduleTask .. | .claimAndEnqueue .. => false
  | _ => true

def step (limit : Nat) (s : Calling Obj) (env : Env) : CallingEvent Obj → Option (Calling Obj)
  | .table e => if other e then (s.life.step limit env e).map fun life => { s with life } else none
  | .asyncTask base cluster call => s.createAndEnqueue py limit env base cluster call false
  | .insertMember call =>
    (call.dump py).map fun columns =>
      { s with members := s.members ++ [⟨call.func, columns.1, columns.2⟩] }
  | .queueChainStep i base cluster =>
    s.members[i]?.bind fun row => s.createAndEnqueue py limit env base cluster
      (.ofColumns row.func row.taskArgs row.taskKwargs) true
  | .dispatchNode i base cluster =>
    s.members[i]?.bind fun row =>
      let call : PyCall Obj := .ofColumns row.func row.taskArgs row.taskKwargs
      (call.dump py).bind fun columns =>
        (s.life.step limit env (.scheduleTask (metadata base row.func columns) cluster)).map fun life =>
          { s with life }
  | .claimAndEnqueue task attempt cutoff =>
    (s.life.find task attempt).bind fun (t, a) =>
      (s.life.step limit env (.claimAndEnqueue task attempt cutoff)).map fun life =>
        { s with life, messages := s.messages ++ [⟨task, a.attemptNumber, t.enqueueBody a⟩] }

end Calling

def callingSystem {Obj : Type} (py : PyObjects Obj) (limit : Nat) :
    StepSystem (Calling Obj) (CallingEvent Obj × Env) where
  init s := s = {}
  step s e := s.step py limit e.2 e.1

/-! How the attempts of a task go on, as far as their messages depend on them. -/

/-- The columns `_enqueue` reads, and whether there was a message. -/
def QraftTaskAttempt.SamePath (a b : QraftTaskAttempt) : Prop :=
  b.attemptNumber = a.attemptNumber ∧ b.dispatchFunc = a.dispatchFunc ∧
    b.dispatchArgs = a.dispatchArgs ∧ (a.q2TaskId ≠ none → b.q2TaskId ≠ none)

/-- An attempt that runs the task's own function. -/
def QraftTaskAttempt.Undirected (a : QraftTaskAttempt) : Prop :=
  a.dispatchFunc = none ∧ a.dispatchArgs = none

namespace QraftTask
open QraftTaskAttempt

/-- The attempts of a task before and after: they stay, and a new one has a number of its own. -/
structure Follows (t t' : QraftTask) : Prop where
  kept : ∀ a ∈ t.attempts, ∃ a' ∈ t'.attempts, a'.attemptNumber = a.attemptNumber
  origin : ∀ a' ∈ t'.attempts, (∃ a ∈ t.attempts, SamePath a a') ∨
    (Undirected a' ∧ ∀ a ∈ t.attempts, a.attemptNumber ≠ a'.attemptNumber)

namespace Follows
variable {t t' u : QraftTask}

theorem trans (h : Follows t u) (h' : Follows u t') : Follows t t' := by
  refine ⟨?_, ?_⟩
  · intro a ha
    obtain ⟨b, hb, hab⟩ := h.kept a ha
    obtain ⟨c, hc, hbc⟩ := h'.kept b hb
    exact ⟨c, hc, hbc.trans hab⟩
  · intro c hc
    rcases h'.origin c hc with ⟨b, hb, hbc⟩ | ⟨hun, hnew⟩
    · rcases h.origin b hb with ⟨a, ha, hab⟩ | ⟨hun, hnew⟩
      · obtain ⟨h₁, h₂, h₃, h₄⟩ := hab
        obtain ⟨k₁, k₂, k₃, k₄⟩ := hbc
        exact .inl ⟨a, ha, k₁.trans h₁, k₂.trans h₂, k₃.trans h₃, fun hq => k₄ (h₄ hq)⟩
      · refine .inr ⟨⟨hbc.2.1.trans hun.1, hbc.2.2.1.trans hun.2⟩, ?_⟩
        intro a ha
        rw [hbc.1]
        exact hnew a ha
    · refine .inr ⟨hun, ?_⟩
      intro a ha
      obtain ⟨b, hb, hab⟩ := h.kept a ha
      rw [← hab]
      exact hnew b hb

theorem of_updateWhere {p : QraftTaskAttempt → Bool} {f : QraftTaskAttempt → QraftTaskAttempt}
    (hf : ∀ a, SamePath a (f a)) (ht : t'.attempts = Rows.updateWhere p f t.attempts) : Follows t t' := by
  refine ⟨?_, ?_⟩
  · intro a ha
    refine ⟨_, ht ▸ Rows.mem_updateWhere_of_mem ha, ?_⟩
    split
    · exact (hf a).1
    · rfl
  · intro a' ha'
    rw [ht] at ha'
    obtain ⟨a, ha, rfl⟩ := Rows.mem_updateWhere.mp ha'
    refine .inl ⟨a, ha, ?_⟩
    split
    · exact hf a
    · exact ⟨rfl, rfl, rfl, fun h => h⟩

theorem of_eq (ht : t'.attempts = t.attempts) : Follows t t' := by
  refine .of_updateWhere (p := fun _ => false) (f := fun a => a) (fun a => ⟨rfl, rfl, rfl, fun h => h⟩) ?_
  rw [ht, Rows.updateWhere_eq_self]
  exact fun _ _ _ => rfl

theorem updateAttempt (t : QraftTask) (id : AttemptId) {f : QraftTaskAttempt → QraftTaskAttempt}
    (hf : ∀ a, SamePath a (f a)) : Follows t (t.updateAttempt id f) := of_updateWhere hf rfl

theorem markRouted (t : QraftTask) (id : AttemptId) : Follows t (t.markRouted id) :=
  updateAttempt t id fun _ => ⟨rfl, rfl, rfl, fun h => h⟩

theorem decide (t : QraftTask) (id : AttemptId) (success : Bool) (exc : Option String) (completed : Time) :
    Follows t (t.updateAttempt id fun a => a.decide success exc completed) :=
  updateAttempt t id fun _ => ⟨rfl, rfl, rfl, fun h => h⟩

theorem scheduleAttempt {id : AttemptId} {number : Nat} {notBefore : Time} {cluster : Option String}
    {now : Time} (h : t.scheduleAttempt id number notBefore cluster now = .ok t') : Follows t t' := by
  obtain ⟨hnew, -⟩ := scheduleAttempt_ok h
  obtain ⟨-, hrows⟩ := scheduleAttempt_attempts h
  refine ⟨?_, ?_⟩
  · intro a ha
    exact ⟨a, hrows ▸ List.mem_append_left _ ha, rfl⟩
  · intro a' ha'
    rw [hrows] at ha'
    rcases List.mem_append.mp ha' with ha | ha
    · exact .inl ⟨a', ha, rfl, rfl, rfl, fun h => h⟩
    · rw [List.mem_singleton.mp ha]
      exact .inr ⟨⟨rfl, rfl⟩, hnew⟩

theorem resolved {id newId : AttemptId} {number : Nat} {now : Time} {routing : Routing}
    (h : Resolved t id number newId now t' routing) : Follows t t' := by
  cases h with
  | @decided _ u success exc completed s hs hu ht =>
    have hdecided : Follows t u := by
      rw [hu]
      exact (Follows.decide t id success exc completed).trans (of_eq rfl)
    rcases ht with rfl | rfl
    · exact hdecided
    · exact hdecided.trans (Follows.markRouted u id)
  | @retried u exc completed policy notBefore cluster hp hl hu =>
    exact ((Follows.decide t id false exc completed).trans (Follows.scheduleAttempt hu)).trans
      (Follows.markRouted u id)

end Follows
end QraftTask

namespace Lifecycle

theorem TaskEffect.follows {limit : Nat} {l : Lifecycle} {env : Env} {e : LifecycleEvent}
    {t t' : QraftTask} (h : TaskEffect limit l env e t t') : t.Follows t' := by
  cases h with
  | same => exact .of_eq rfl
  | @leased q w t =>
    refine .of_updateWhere (f := w.write env.now) ?_ rfl
    intro a
    cases w <;> exact ⟨rfl, rfl, rfl, fun h => h⟩
  | @rearmed cutoff t =>
    refine .of_updateWhere (f := fun a => { a with state := .scheduled, claimedAt := none }) ?_ rfl
    exact fun a => ⟨rfl, rfl, rfl, fun h => h⟩
  | moved h =>
    cases h with
    | @claimed task attempt cutoff t t' hok =>
      obtain ⟨-, rfl⟩ := claimAndEnqueue_eq_some hok
      refine .of_updateWhere (f := fun a => a.enqueue env.now l.store.nextId env.executingCluster) ?_ rfl
      exact fun a => ⟨rfl, rfl, rfl, fun _ => Option.some_ne_none _⟩
    | @published task attempt t ht =>
      exact .updateAttempt t attempt fun _ => ⟨rfl, rfl, rfl, fun h => h⟩
    | routed hd ht => exact .markRouted _ _
    | result hr ha hq hok =>
      rcases handleResult_ok hok with ⟨he, -⟩ | ⟨a, -, -, -, hres⟩
      · cases he
        exact .of_eq rfl
      · exact .resolved hres
    | reaped hr ht hp hok =>
      simp only [reapable, Bool.and_eq_true, decide_eq_true_eq] at hp
      exact .resolved (reap_ok hp.1.1.2 hok)
    | requeued hr ht hok => exact .scheduleAttempt hok

end Lifecycle

namespace Calling
variable {Obj : Type} (py : PyObjects Obj)

/-- The row of a task that was created for a call, and of no attempt with its first message to come. -/
structure Backs (c : Accepted Obj) (t : QraftTask) : Prop where
  func : t.func = c.call.func
  columns : c.call.dump py = some (t.taskArgs, t.taskKwargs)
  first : ∃ a ∈ t.attempts, a.attemptNumber = 1
  sent : ∀ a ∈ t.attempts, a.attemptNumber = 1 → a.q2TaskId ≠ none

def rebuilt (t : QraftTask) : PyCall Obj := .ofColumns t.func t.taskArgs t.taskKwargs

inductive Source (s : Calling Obj) (m : Message Obj) : Prop where
  | caller {c : Accepted Obj} (hc : c ∈ s.accepted) (ht : c.task = m.task)
      (hn : m.attemptNumber = 1) (h : m.body.target = c.call)
  | columns {t : QraftTask} (ht : t ∈ s.life.store.tasks) (hid : t.id = m.task)
      (h : m.body.target = rebuilt t) (hn : ∀ c ∈ s.accepted, c.task = m.task → m.attemptNumber ≠ 1)

structure Faithful (s : Calling Obj) : Prop where
  distinct : s.life.store.Distinct
  undirected : ∀ t ∈ s.life.store.tasks, ∀ a ∈ t.attempts, a.Undirected
  backed : ∀ c ∈ s.accepted, ∃ t ∈ s.life.store.tasks, t.id = c.task ∧ Backs py c t
  unique : (s.accepted.map fun c => c.task).Nodup
  stored : ∀ c ∈ s.accepted, c.stored = true → c.call.plain py = true
  sources : ∀ m ∈ s.messages, Source s m

section
variable {py} {limit : Nat} {s : Calling Obj} {life : Lifecycle} {env : Env} {e : LifecycleEvent}

theorem Backs.follows {c : Accepted Obj} {t t' : QraftTask} (h : Backs py c t) (hf : t.Follows t')
    (hframe : t' = { t with status := t'.status, dateUpdated := t'.dateUpdated, attempts := t'.attempts }) :
    Backs py c t' := by
  refine ⟨?_, ?_, ?_, ?_⟩
  · rw [hframe]
    exact h.func
  · rw [hframe]
    exact h.columns
  · obtain ⟨a, ha, hn⟩ := h.first
    obtain ⟨a', ha', hn'⟩ := hf.kept a ha
    exact ⟨a', ha', hn'.trans hn⟩
  · intro a' ha' hn
    rcases hf.origin a' ha' with ⟨a, ha, hpath⟩ | ⟨-, hnew⟩
    · exact hpath.2.2.2 (h.sent a ha (hpath.1.symm.trans hn))
    · obtain ⟨a, ha, hone⟩ := h.first
      exact absurd (hone.trans hn.symm) (hnew a ha)

/-- A row of the table after a step of it. -/
theorem Faithful.row (h : Faithful py s) (hstep : s.life.step limit env e = some life) {t : QraftTask}
    (ht : t ∈ s.life.store.tasks) : ∃ t' ∈ life.store.tasks, t'.id = t.id ∧ t.Follows t' ∧
      t' = { t with status := t'.status, dateUpdated := t'.dateUpdated, attempts := t'.attempts } := by
  obtain ⟨t', ht', heff⟩ := Lifecycle.step_task h.distinct hstep (h.distinct.task?_of_mem ht)
  obtain ⟨hm, hid⟩ := TaskStore.task?_eq_some ht'
  exact ⟨t', hm, hid, heff.follows, heff.frame⟩

theorem Faithful.undirected_step (h : Faithful py s) (hstep : s.life.step limit env e = some life) :
    ∀ t' ∈ life.store.tasks, ∀ a ∈ t'.attempts, a.Undirected := by
  intro t' ht' a' ha'
  rcases Lifecycle.step_origin h.distinct hstep ht' with ⟨t, ht, heff⟩ | ⟨base, cluster, trace, -, rfl⟩ |
    ⟨base, cluster, -, hok⟩
  · rcases heff.follows.origin a' ha' with ⟨a, ha, hpath⟩ | ⟨hun, -⟩
    · have hun := h.undirected t (TaskStore.task?_eq_some ht).1 a ha
      exact ⟨hpath.2.1.trans hun.1, hpath.2.2.1.trans hun.2⟩
    · exact hun
  · rw [List.mem_singleton.mp ha']
    exact ⟨rfl, rfl⟩
  · rcases (Follows.scheduleAttempt hok).origin a' ha' with ⟨a, ha, -⟩ | ⟨hun, -⟩
    · exact absurd ha List.not_mem_nil
    · exact hun

/-- A step of the table, which hands over no message. -/
theorem Faithful.table (h : Faithful py s) (hstep : s.life.step limit env e = some life) :
    Faithful py { s with life } := by
  refine ⟨(Lifecycle.step_rows h.distinct hstep).1, h.undirected_step hstep, ?_, h.unique, h.stored, ?_⟩
  · intro c hc
    obtain ⟨t, ht, hid, hb⟩ := h.backed c hc
    obtain ⟨t', ht', hid', hf, hframe⟩ := h.row hstep ht
    exact ⟨t', ht', hid'.trans hid, hb.follows hf hframe⟩
  · intro m hm
    cases h.sources m hm with
    | caller hc ht hn htarget => exact .caller hc ht hn htarget
    | columns ht hid htarget hn =>
      obtain ⟨t', ht', hid', -, hframe⟩ := h.row hstep ht
      refine .columns ht' (hid'.trans hid) ?_ hn
      rw [htarget, rebuilt, rebuilt, hframe]

theorem enqueueBody_target {t : QraftTask} {a : QraftTaskAttempt} (h : a.Undirected) :
    (t.enqueueBody a : Body Obj).target = rebuilt t := by
  obtain ⟨hfunc, hargs⟩ := h
  simp [enqueueBody, hfunc, hargs, orElse, Body.target, rebuilt]

theorem wrappedDispatch_target (c : PyCall Obj) : c.wrappedDispatch.target = c := by
  unfold PyCall.wrappedDispatch
  split
  · rfl
  · rfl

/-- An attempt is claimed: its message is rebuilt from the row. -/
theorem Faithful.claimed (h : Faithful py s) {task : TaskId} {attempt : AttemptId} {cutoff : Time}
    {t : QraftTask} {a : QraftTaskAttempt} (hfind : s.life.find task attempt = some (t, a))
    (hstep : s.life.step limit env (.claimAndEnqueue task attempt cutoff) = some life) :
    Faithful py { s with
      life, messages := s.messages ++ [⟨task, a.attemptNumber, t.enqueueBody a⟩] } := by
  have hnext := h.table hstep
  refine ⟨hnext.distinct, hnext.undirected, hnext.backed, hnext.unique, hnext.stored, ?_⟩
  obtain ⟨ht, hid, ha, haid⟩ := Lifecycle.find_eq_some hfind
  intro m hm
  rcases List.mem_append.mp hm with hm | hm
  · cases hnext.sources m hm with
    | caller hc ht hn htarget => exact .caller hc ht hn htarget
    | columns ht hid htarget hn => exact .columns ht hid htarget hn
  · rw [List.mem_singleton.mp hm]
    obtain ⟨t', ht', hid', -, hframe⟩ := h.row hstep ht
    refine .columns ht' (hid'.trans hid) ?_ ?_
    · rw [enqueueBody_target (h.undirected t ht a ha), rebuilt, rebuilt, hframe]
    · intro c hc htask hone
      obtain ⟨u, hu, huid, hb⟩ := h.backed c hc
      obtain rfl : u = t := Rows.eq_of_key_eq h.distinct.tasks hu ht (huid.trans (htask.trans hid.symm))
      -- The claim takes a scheduled attempt, and one that is scheduled has no message.
      obtain ⟨v, hv, hstep⟩ := Option.bind_eq_some_iff.mp hstep
      obtain ⟨v', hclaim, -⟩ := Option.map_eq_some_iff.mp hstep
      obtain ⟨hvm, hvid⟩ := TaskStore.task?_eq_some hv
      obtain rfl : v = u := Rows.eq_of_key_eq h.distinct.tasks hvm hu (hvid.trans hid.symm)
      obtain ⟨⟨b, hbm, hbid, hbs⟩, -⟩ := claimAndEnqueue_eq_some hclaim
      obtain rfl : b = a := Rows.eq_of_key_eq (h.distinct.attempts v hu) hbm ha (hbid.trans haid.symm)
      exact hb.sent b hbm hone (h.distinct.unclaimed v hu b hbm hbs)

/-- No message is about the next task. -/
theorem Faithful.task_ne (h : Faithful py s) {m : Message Obj} (hm : m ∈ s.messages) :
    m.task ≠ s.life.store.nextId := by
  have hrow : ∃ t ∈ s.life.store.tasks, t.id = m.task := by
    cases h.sources m hm with
    | caller hc ht _ _ =>
      obtain ⟨t, htm, hid, -⟩ := h.backed _ hc
      exact ⟨t, htm, hid.trans ht⟩
    | columns ht hid _ _ => exact ⟨_, ht, hid⟩
  obtain ⟨t, ht, hid⟩ := hrow
  rw [← hid]
  exact Nat.ne_of_lt (h.distinct.bound t ht).1

theorem Faithful.created (h : Faithful py s) {s' : Calling Obj} {base : QraftTask}
    {cluster : Option String} {call : PyCall Obj} {stored : Bool}
    (hstored : stored = true → call.plain py = true)
    (hstep : s.createAndEnqueue py limit env base cluster call stored = some s') : Faithful py s' := by
  obtain ⟨columns, hdump, hstep⟩ := Option.bind_eq_some_iff.mp hstep
  obtain ⟨life, hlife, rfl⟩ := Option.map_eq_some_iff.mp hstep
  have hnext := h.table hlife
  have hfresh : ∀ c ∈ s.accepted, c.task ≠ s.life.store.nextId := by
    intro c hc he
    obtain ⟨t, ht, hid, -⟩ := h.backed c hc
    exact absurd (h.distinct.bound t ht).1 (by rw [hid, he]; exact Nat.lt_irrefl _)
  refine ⟨hnext.distinct, hnext.undirected, ?_, ?_, ?_, ?_⟩
  · intro c hc
    rcases List.mem_append.mp hc with hc | hc
    · exact hnext.backed c hc
    · rw [List.mem_singleton.mp hc]
      cases hlife
      refine ⟨_, List.mem_append_right _ (List.mem_singleton_self _), rfl, rfl, hdump, ?_, ?_⟩
      · exact ⟨_, List.mem_singleton_self _, rfl⟩
      · intro a ha _
        rw [List.mem_singleton.mp ha]
        exact Option.some_ne_none _
  · rw [List.map_append, List.nodup_append]
    refine ⟨h.unique, List.nodup_singleton _, ?_⟩
    intro i hi j hj
    obtain ⟨c, hc, rfl⟩ := List.mem_map.mp hi
    rw [List.mem_singleton.mp hj]
    exact hfresh c hc
  · intro c hc
    rcases List.mem_append.mp hc with hc | hc
    · exact h.stored c hc
    · rw [List.mem_singleton.mp hc]
      exact hstored
  · intro m hm
    rcases List.mem_append.mp hm with hm | hm
    · cases hnext.sources m hm with
      | caller hc ht hn htarget => exact .caller (List.mem_append_left _ hc) ht hn htarget
      | columns ht hid htarget hn =>
        refine .columns ht hid htarget ?_
        intro c hc htask
        rcases List.mem_append.mp hc with hc | hc
        · exact hn c hc htask
        · rw [List.mem_singleton.mp hc] at htask
          exact absurd htask.symm (h.task_ne hm)
    · rw [List.mem_singleton.mp hm]
      exact .caller (List.mem_append_right _ (List.mem_singleton_self _)) rfl rfl
        (wrappedDispatch_target call)

theorem Faithful.step (h : Faithful py s) {s' : Calling Obj} {e : CallingEvent Obj}
    (hstep : s.step py limit env e = some s') : Faithful py s' := by
  cases e with
  | table e =>
    simp only [Calling.step] at hstep
    split at hstep
    · obtain ⟨life, hlife, rfl⟩ := Option.map_eq_some_iff.mp hstep
      exact h.table hlife
    · cases hstep
  | asyncTask base cluster call =>
    exact Faithful.created h (fun hf => by cases hf) hstep
  | insertMember call =>
    obtain ⟨columns, -, rfl⟩ := Option.map_eq_some_iff.mp hstep
    exact ⟨h.distinct, h.undirected, h.backed, h.unique, h.stored, fun m hm => by
      cases h.sources m hm with
      | caller hc ht hn htarget => exact .caller hc ht hn htarget
      | columns ht hid htarget hn => exact .columns ht hid htarget hn⟩
  | queueChainStep i base cluster =>
    obtain ⟨row, -, hstep⟩ := Option.bind_eq_some_iff.mp hstep
    -- What a step's row gives back is plain already.
    exact h.created (fun _ => PyCall.plain_ofColumns py _ _ _) hstep
  | dispatchNode i base cluster =>
    obtain ⟨row, -, hstep⟩ := Option.bind_eq_some_iff.mp hstep
    obtain ⟨columns, -, hstep⟩ := Option.bind_eq_some_iff.mp hstep
    obtain ⟨life, hlife, rfl⟩ := Option.map_eq_some_iff.mp hstep
    exact h.table hlife
  | claimAndEnqueue task attempt cutoff =>
    obtain ⟨⟨t, a⟩, hfind, hstep⟩ := Option.bind_eq_some_iff.mp hstep
    obtain ⟨life, hlife, rfl⟩ := Option.map_eq_some_iff.mp hstep
    exact h.claimed hfind hlife

theorem reach_faithful (h : (callingSystem py limit).Reach s) : Faithful py s := by
  apply h.invariant (Faithful py)
  · rintro s rfl
    refine ⟨⟨?_, ?_, ?_, ?_, ?_, ?_⟩, ?_, ?_, ?_, ?_, ?_⟩
    all_goals first | exact List.nodup_nil | exact fun x hx => absurd hx List.not_mem_nil
  · intro s e s' hs _ hstep
    exact hs.step hstep

/-- A message that takes its call from the row of its task: one of a later attempt, or one of any
attempt of a task that no caller's arguments came with, as a node's. -/
def FromRow (s : Calling Obj) (m : Message Obj) : Prop :=
  m.attemptNumber ≠ 1 ∨ ∀ c ∈ s.accepted, c.task ≠ m.task

theorem FromRow.columns {m : Message Obj} (h : FromRow s m) (hs : Source s m) :
    ∃ t ∈ s.life.store.tasks, t.id = m.task ∧ m.body.target = rebuilt t := by
  cases hs with
  | @caller c hc htask hone htarget =>
    rcases h with hn | hno
    · exact absurd hone hn
    · exact absurd htask (hno c hc)
  | @columns t ht hid htarget hnew => exact ⟨t, ht, hid, htarget⟩

/-- All messages that were rebuilt from the row of a task agree. -/
theorem rebuilt_agree (h : (callingSystem py limit).Reach s) {m m' : Message Obj}
    (hm : m ∈ s.messages) (hm' : m' ∈ s.messages) (ht : m.task = m'.task)
    (hn : FromRow s m) (hn' : FromRow s m') : m.body.target = m'.body.target := by
  have hf := reach_faithful h
  obtain ⟨t, hrow, hid, htarget⟩ := hn.columns (hf.sources m hm)
  obtain ⟨t', hrow', hid', htarget'⟩ := hn'.columns (hf.sources m' hm')
  obtain rfl : t = t' := Rows.eq_of_key_eq hf.distinct.tasks hrow hrow' (hid.trans (ht.trans hid'.symm))
  rw [htarget, htarget']

/-- A later attempt is called with the same arguments if the columns keep them. -/
theorem later_same (h : (callingSystem py limit).Reach s) {c : Accepted Obj} (hc : c ∈ s.accepted)
    {m : Message Obj} (hm : m ∈ s.messages) (ht : m.task = c.task) (hn : m.attemptNumber ≠ 1) :
    c.call.Same py m.body.target ↔ c.call.plain py = true := by
  have hf := reach_faithful h
  obtain ⟨t, hrow, hid, htarget⟩ := FromRow.columns (.inl hn) (hf.sources m hm)
  obtain ⟨u, hu, huid, hb⟩ := hf.backed c hc
  obtain rfl : u = t := Rows.eq_of_key_eq hf.distinct.tasks hu hrow (huid.trans (ht.symm.trans hid.symm))
  rw [htarget, rebuilt, hb.func]
  exact PyCall.same_ofColumns py hb.columns

/-- Exactly when the function of a task is called with the arguments its first attempt had. -/
theorem arguments_kept (h : (callingSystem py limit).Reach s) {c : Accepted Obj}
    (hc : c ∈ s.accepted) {m : Message Obj} (hm : m ∈ s.messages) (ht : m.task = c.task) :
    c.call.Same py m.body.target ↔
      m.attemptNumber = 1 ∨ c.stored = true ∨ c.call.plain py = true := by
  have hf := reach_faithful h
  by_cases hn : m.attemptNumber = 1
  · refine iff_of_true ?_ (.inl hn)
    cases hf.sources m hm with
    | @caller c' hc' htask hone htarget =>
      obtain rfl : c' = c := List.inj_on_of_nodup_map hf.unique hc' hc (htask.trans ht)
      exact .inl htarget.symm
    | columns htm hid htarget hnew => exact absurd hn (hnew c hc ht.symm)
  · rw [later_same h hc hm ht hn]
    constructor
    · exact fun hp => .inr (.inr hp)
    · rintro (hone | hst | hp)
      · exact absurd hone hn
      · exact hf.stored c hc hst
      · exact hp

end

def builtins : PyObjects Empty where
  default o := nomatch o
  numText _ := ""
  eq o _ := nomatch o

def listCall : PyCall Empty :=
  .positional "app.work" [.list [.num 1, .num 2]] ⟨⟨trivial, trivial, trivial⟩, trivial⟩

def tupleCall : PyCall Empty :=
  .positional "app.work" [.tuple [.num 1, .num 2]] ⟨⟨trivial, trivial, trivial⟩, trivial⟩

def atTime {Obj : Type} (now : Time) (e : CallingEvent Obj) : CallingEvent Obj × Env := (e, { now })

def requeuedOnce (call : PyCall Empty) : List (CallingEvent Empty × Env) := [
  atTime 1 (.asyncTask Lifecycle.work none call),
  atTime 2 (.table (.saveResult { id := 2, success := false, stopped := 2 })),
  atTime 2 (.table (.handleResult 0)),
  atTime 3 (.table (.loadInstance 0)),
  atTime 4 (.table (.requeueCheck 0)),
  atTime 4 (.table (.requeueCommit 0)),
  atTime 9 (.claimAndEnqueue 0 4 9)]

def secondMessage (p : PyCall Empty → Bool) (s : Calling Empty) : Bool :=
  s.accepted.any fun c => s.messages.any fun m =>
    m.task = c.task && m.attemptNumber = 2 && p c.call

private theorem secondMessage_spec {p : PyCall Empty → Bool} {s : Calling Empty}
    (h : secondMessage p s = true) : ∃ c ∈ s.accepted, ∃ m ∈ s.messages,
      m.task = c.task ∧ m.attemptNumber = 2 ∧ p c.call = true := by
  obtain ⟨c, hc, h⟩ := List.any_eq_true.mp h
  obtain ⟨m, hm, h⟩ := List.any_eq_true.mp h
  rw [Bool.and_eq_true, Bool.and_eq_true, decide_eq_true_eq, decide_eq_true_eq] at h
  exact ⟨c, hc, m, hm, h.1.1, h.1.2, h.2⟩

theorem arguments_kept_list : ∃ s, (callingSystem builtins 1).Reach s ∧ ∃ c ∈ s.accepted,
    ∃ m ∈ s.messages, m.attemptNumber = 2 ∧ c.call.Same builtins m.body.target := by
  obtain ⟨s, hr, hp⟩ := StepSystem.exists_reach_of_run (callingSystem builtins 1)
    (requeuedOnce listCall) (.init rfl) (secondMessage fun c => c.plain builtins) (by decide)
  obtain ⟨c, hc, m, hm, ht, hn, hplain⟩ := secondMessage_spec hp
  exact ⟨s, hr, c, hc, m, hm, hn, (arguments_kept hr hc hm ht).mpr (.inr (.inr hplain))⟩

/-- The second attempt gets a list where the first got a tuple. -/
theorem arguments_changed : ∃ s, (callingSystem builtins 1).Reach s ∧ ∃ c ∈ s.accepted,
    ∃ m ∈ s.messages, m.task = c.task ∧ ¬c.call.Same builtins m.body.target := by
  obtain ⟨s, hr, hp⟩ := StepSystem.exists_reach_of_run (callingSystem builtins 1)
    (requeuedOnce tupleCall) (.init rfl) (secondMessage fun c => !c.plain builtins) (by decide)
  obtain ⟨c, hc, m, hm, ht, hn, hlost⟩ := secondMessage_spec hp
  refine ⟨s, hr, c, hc, m, hm, ht, ?_⟩
  rw [later_same hr hc hm ht (by rw [hn]; exact Nat.succ_ne_self 1)]
  rw [(Bool.not_eq_true' _).mp hlost]
  exact Bool.false_ne_true

end Calling
end Qraft
