import Qraft.Execution.Deadlines
import Qraft.Foundations.Progress

/-! `threaded_worker`: the main loop takes tasks and submits them to a pool under a semaphore, and each
pool thread runs `_execute_task_in_thread` between the steps of the others. -/
namespace Qraft

structure WorkerTask where
  q2TaskId : Nat
  timeout : Option ℚ := none
  deriving DecidableEq

inductive QueueItem where
  | task (t : WorkerTask)
  /-- `"STOP"`. -/
  | stop

structure WorkerConf where
  threads : Nat
  maxInflight : Nat
  timeout : Option ℚ := none
  recycle : Nat := 500

inductive JobPhase where
  /-- In the executor's queue. -/
  | queued
  | entered
  | executing
  /-- `task["success"]` is set, and the result is to be put. -/
  | reporting (success : Bool)
  /-- In the handler of an error of the wrapper itself. -/
  | failing
  /-- In the `finally` block, before `deadlines.remove`. -/
  | leaving
  /-- Before `inflight_semaphore.release`. -/
  | unregistered
  | finished
  /-- The `finally` block raised: the deadline and the permit stay. -/
  | abandoned
  deriving DecidableEq

inductive ThreadAct where
  /-- Looking up the function, or a receiver of `pre_execute`, raises. -/
  | prepareRaises
  /-- The deadline is added, with the two readings of the clock. -/
  | register (called now : ℚ)
  /-- The function returns, or raises an `Exception`. -/
  | returns (success : Bool)
  /-- What is no `Exception` is raised. -/
  | escapes
  | put
  | putRaises
  | cleanupRaises
  | unregister (now : ℚ)
  | release

namespace JobPhase

def after : JobPhase → ThreadAct → Option JobPhase
  | .entered, .prepareRaises => some .failing
  | .entered, .register _ _ => some .executing
  | .entered, .escapes => some .leaving
  | .executing, .returns success => some (.reporting success)
  | .executing, .escapes => some .leaving
  | .reporting _, .put => some .leaving
  | .reporting _, .putRaises => some .failing
  | .failing, .put => some .leaving
  | .failing, .putRaises => some .leaving
  | .leaving, .cleanupRaises => some .abandoned
  | .leaving, .unregister _ => some .unregistered
  | .unregistered, .release => some .finished
  | _, _ => none

def running : JobPhase → Bool
  | .queued | .finished | .abandoned => false
  | _ => true

def holds : JobPhase → Bool
  | .finished => false
  | _ => true

/-- The executor has nothing left to do for it. -/
def done : JobPhase → Bool
  | .finished | .abandoned => true
  | _ => false

/-- Its result, if it has one, has been put. -/
def past : JobPhase → Bool
  | .leaving | .unregistered | .finished | .abandoned => true
  | _ => false

/-- Its deadline may be in the registry. -/
def registered : JobPhase → Bool
  | .executing | .reporting _ | .failing | .leaving | .abandoned => true
  | _ => false

end JobPhase

structure Job where
  task : WorkerTask
  phase : JobPhase := .queued

structure WorkerResult where
  ticket : Nat
  success : Bool

inductive LoopPhase where
  | polling
  | acquiring (t : WorkerTask)
  | submitting (t : WorkerTask)
  | recycling
  /-- The executor is shut down, for the grace period. -/
  | stopping
  | exited
  /-- `os._exit(1)`. -/
  | killed
  deriving DecidableEq

structure ThreadedWorker where
  loop : LoopPhase := .polling
  taskCount : Nat := 0
  permits : Nat
  /-- The submitted tasks, each under the number of its submission. -/
  jobs : List Job := []
  registry : DeadlineRegistry Nat := {}
  /-- What has been put on the result queue. -/
  results : List WorkerResult := []

inductive PoolEvent where
  | get (item : QueueItem)
  | acquire
  | submit
  | recycle
  /-- A free thread of the pool takes the first job of the queue. -/
  | start
  | thread (k : Nat) (act : ThreadAct)
  /-- The guard counts the timer down. -/
  | countdown (left : ℚ≥0)
  /-- The executor has shut down within the grace period. -/
  | drained
  | expire

/-- `task.pop("timeout", timeout) or timeout`, where a `timeout` of `None` has become `TIMER_IDLE`. -/
def WorkerConf.taskTimeout (conf : WorkerConf) (t : WorkerTask) : ℚ :=
  let timeout := conf.timeout.getD timerIdle
  match t.timeout with
  | some own => if own = 0 then timeout else own
  | none => timeout

namespace ThreadedWorker

/-- What the act of a job's thread does to what the threads share. -/
def perform (conf : WorkerConf) (w : ThreadedWorker) (k : Nat) (job : Job) : ThreadAct → ThreadedWorker
  | .register called now =>
    let timeout := conf.taskTimeout job.task
    if 0 < timeout then { w with registry := w.registry.add k timeout called now } else w
  | .put =>
    let success := match job.phase with
      | .reporting success => success
      | _ => false
    { w with results := w.results ++ [{ ticket := k, success }] }
  | .unregister now => { w with registry := w.registry.remove k now }
  | .release => { w with permits := w.permits + 1 }
  | _ => w

def setPhase (w : ThreadedWorker) (k : Nat) (job : Job) (phase : JobPhase) : ThreadedWorker :=
  { w with jobs := w.jobs.set k { job with phase } }

def runningCount (w : ThreadedWorker) : Nat := w.jobs.countP fun job => job.phase.running

def step (conf : WorkerConf) (w : ThreadedWorker) : PoolEvent → Option ThreadedWorker
  | .get item =>
    if w.loop = .polling then
      match item with
      | .task t => some { w with loop := .acquiring t, taskCount := w.taskCount + 1 }
      | .stop => some { w with loop := .stopping }
    else none
  | .acquire =>
    match w.loop with
    | .acquiring t => if 0 < w.permits then some { w with loop := .submitting t, permits := w.permits - 1 } else none
    | _ => none
  | .submit =>
    match w.loop with
    | .submitting t =>
      let loop := if conf.recycle ≤ w.taskCount then .recycling else .polling
      some { w with loop, jobs := w.jobs ++ [{ task := t }] }
    | _ => none
  | .recycle =>
    if w.loop = .recycling then some { w with loop := .stopping, registry := w.registry.put timerRecycle }
    else none
  | .start =>
    if w.loop ≠ .killed ∧ w.runningCount < conf.threads then
      (w.jobs.findIdx? fun job => job.phase = .queued).bind fun k =>
        w.jobs[k]?.map fun job => w.setPhase k job .entered
    else none
  | .thread k act =>
    if w.loop ≠ .killed then
      w.jobs[k]?.bind fun job =>
        (job.phase.after act).map fun phase => (w.perform conf k job act).setPhase k job phase
    else none
  | .countdown left => some { w with registry := w.registry.step (.countdown left) }
  | .drained =>
    if w.loop = .stopping ∧ w.jobs.all (fun job => job.phase.done) then
      let registry := if 0 < w.registry.timer then w.registry.put timerIdle else w.registry
      some { w with loop := .exited, registry }
    else none
  | .expire => if w.loop = .stopping then some { w with loop := .killed } else none

end ThreadedWorker

/-- A worker starts with all its permits and an idle timer. -/
def threadedSystem (conf : WorkerConf) : StepSystem ThreadedWorker PoolEvent where
  init w := w = { permits := conf.maxInflight }
  step w e := w.step conf e

namespace ThreadedWorker

inductive PoolEffect (conf : WorkerConf) (w : ThreadedWorker) : PoolEvent → ThreadedWorker → Prop where
  | took (t : WorkerTask) (hl : w.loop = .polling) :
    PoolEffect conf w (.get (.task t)) { w with loop := .acquiring t, taskCount := w.taskCount + 1 }
  | stopped (hl : w.loop = .polling) : PoolEffect conf w (.get .stop) { w with loop := .stopping }
  | acquired {t : WorkerTask} (hl : w.loop = .acquiring t) (hp : 0 < w.permits) :
    PoolEffect conf w .acquire { w with loop := .submitting t, permits := w.permits - 1 }
  | submitted {t : WorkerTask} (hl : w.loop = .submitting t) :
    PoolEffect conf w .submit
      { w with
        loop := if conf.recycle ≤ w.taskCount then .recycling else .polling
        jobs := w.jobs ++ [{ task := t }] }
  | recycled (hl : w.loop = .recycling) :
    PoolEffect conf w .recycle { w with loop := .stopping, registry := w.registry.put timerRecycle }
  | started {k : Nat} {job : Job} (hl : w.loop ≠ .killed) (hc : w.runningCount < conf.threads)
      (hj : w.jobs[k]? = some job) (hp : job.phase = .queued)
      (hfirst : ∀ i other, i < k → w.jobs[i]? = some other → other.phase ≠ .queued) :
    PoolEffect conf w .start (w.setPhase k job .entered)
  | moved {k : Nat} {act : ThreadAct} {job : Job} {phase : JobPhase} (hl : w.loop ≠ .killed)
      (hj : w.jobs[k]? = some job) (hp : job.phase.after act = some phase) :
    PoolEffect conf w (.thread k act) ((w.perform conf k job act).setPhase k job phase)
  | counted (left : ℚ≥0) : PoolEffect conf w (.countdown left) { w with registry := w.registry.step (.countdown left) }
  | drained (hl : w.loop = .stopping) (hd : ∀ job ∈ w.jobs, job.phase.done = true) :
    PoolEffect conf w .drained
      { w with
        loop := .exited
        registry := if 0 < w.registry.timer then w.registry.put timerIdle else w.registry }
  | expired (hl : w.loop = .stopping) : PoolEffect conf w .expire { w with loop := .killed }

theorem step_pool {conf : WorkerConf} {w w' : ThreadedWorker} {e : PoolEvent} (h : w.step conf e = some w') :
    PoolEffect conf w e w' := by
  cases e with
  | get item =>
    simp only [step] at h
    split at h
    · rename_i hl
      cases item with
      | task t =>
        cases h
        exact .took t hl
      | stop =>
        cases h
        exact .stopped hl
    · cases h
  | acquire =>
    simp only [step] at h
    split at h
    · rename_i t hl
      split at h
      · rename_i hp
        cases h
        exact .acquired hl hp
      · cases h
    · cases h
  | submit =>
    simp only [step] at h
    split at h
    · rename_i t hl
      cases h
      exact .submitted hl
    · cases h
  | recycle =>
    simp only [step] at h
    split at h
    · rename_i hl
      cases h
      exact .recycled hl
    · cases h
  | start =>
    simp only [step] at h
    split at h
    · rename_i hl
      obtain ⟨k, hk, h⟩ := Option.bind_eq_some_iff.mp h
      obtain ⟨job, hj, rfl⟩ := Option.map_eq_some_iff.mp h
      obtain ⟨hlt, hqueued, hfirst⟩ := List.findIdx?_eq_some_iff_getElem.mp hk
      obtain ⟨_, hget⟩ := List.getElem?_eq_some_iff.mp hj
      rw [hget] at hqueued
      refine .started hl.1 hl.2 hj (of_decide_eq_true hqueued) ?_
      intro i other hi hother hq
      obtain ⟨_, hgeti⟩ := List.getElem?_eq_some_iff.mp hother
      have hno := hfirst i hi
      rw [hgeti, hq] at hno
      exact hno (decide_eq_true rfl)
    · cases h
  | thread k act =>
    simp only [step] at h
    split at h
    · rename_i hl
      obtain ⟨job, hj, h⟩ := Option.bind_eq_some_iff.mp h
      obtain ⟨phase, hp, rfl⟩ := Option.map_eq_some_iff.mp h
      exact .moved hl hj hp
    · cases h
  | countdown left =>
    cases h
    exact .counted left
  | drained =>
    simp only [step] at h
    split at h
    · rename_i hd
      cases h
      exact .drained hd.1 (List.all_eq_true.mp hd.2)
    · cases h
  | expire =>
    simp only [step] at h
    split at h
    · rename_i hl
      cases h
      exact .expired hl
    · cases h

/-- An act changes neither the main loop nor the jobs. -/
theorem perform_frame (conf : WorkerConf) (w : ThreadedWorker) (k : Nat) (job : Job) (act : ThreadAct) :
    (w.perform conf k job act).loop = w.loop ∧ (w.perform conf k job act).taskCount = w.taskCount ∧
      (w.perform conf k job act).jobs = w.jobs := by
  cases act with
  | register called now =>
    simp only [perform]
    split
    · exact ⟨rfl, rfl, rfl⟩
    · exact ⟨rfl, rfl, rfl⟩
  | prepareRaises | returns | escapes | put | putRaises | cleanupRaises | unregister | release =>
    exact ⟨rfl, rfl, rfl⟩

/-- A job's registry entry goes with its thread's own calls. -/
theorem perform_registry (conf : WorkerConf) (w : ThreadedWorker) (k : Nat) (job : Job) (act : ThreadAct) :
    (∃ called now, act = .register called now ∧ 0 < conf.taskTimeout job.task ∧
      (w.perform conf k job act).registry = w.registry.add k (conf.taskTimeout job.task) called now) ∨
    (∃ now, act = .unregister now ∧ (w.perform conf k job act).registry = w.registry.remove k now) ∨
    ((∀ now, act ≠ .unregister now) ∧
      ((∃ called now, act = .register called now) → conf.taskTimeout job.task ≤ 0) ∧
      (w.perform conf k job act).registry = w.registry) := by
  cases act with
  | register called now =>
    simp only [perform]
    split
    · rename_i ht
      exact .inl ⟨called, now, rfl, ht, rfl⟩
    · rename_i ht
      exact .inr (.inr ⟨(fun _ h => by cases h), fun _ => not_lt.mp ht, rfl⟩)
  | unregister now => exact .inr (.inl ⟨now, rfl, rfl⟩)
  | prepareRaises | returns | escapes | put | putRaises | cleanupRaises | release =>
    refine .inr (.inr ⟨(fun _ h => by cases h), ?_, rfl⟩)
    rintro ⟨called, now, h⟩
    cases h

end ThreadedWorker
end Qraft
