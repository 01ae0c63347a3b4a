import Qraft.Execution.ThreadedRuns

/-! A threaded worker can be drained: from any state, its own steps and a `"STOP"` on its queue bring
it to a clean exit. -/
namespace Qraft

/-- How far a job's thread has to go. -/
def JobPhase.rank : JobPhase → Nat
  | .queued => 7
  | .entered => 6
  | .executing => 5
  | .reporting _ => 4
  | .failing => 3
  | .leaving => 2
  | .unregistered => 1
  | .finished | .abandoned => 0

/-- How far the main loop has to go. A submission leaves it the rank of the job it makes. -/
def LoopPhase.rank : LoopPhase → Nat
  | .acquiring _ => 12
  | .submitting _ => 11
  | .recycling => 3
  | .polling => 2
  | .stopping => 1
  | .exited | .killed => 0

/-- The queue gives no further task, and nothing raises or runs out of time. -/
def PoolEvent.calm : PoolEvent → Bool
  | .get (.task _) | .expire => false
  | .thread _ act =>
    match act with
    | .prepareRaises | .escapes | .putRaises | .cleanupRaises => false
    | _ => true
  | _ => true

namespace ThreadedWorker

def rank (w : ThreadedWorker) : Nat := (w.jobs.map fun job => job.phase.rank).sum + w.loop.rank

def abandoned (w : ThreadedWorker) : Nat := w.jobs.countP fun job => job.phase = .abandoned

section
variable {conf : WorkerConf} {w w' : ThreadedWorker}

structure Drainable (conf : WorkerConf) (w : ThreadedWorker) : Prop where
  bounded : w.Bounded conf
  alive : w.loop ≠ .killed
  permits : w.abandoned < conf.maxInflight

/-- A running thread has a next act that takes it on. -/
private theorem exists_act {phase : JobPhase} (h : phase.running = true) :
    ∃ act phase', phase.after act = some phase' ∧ (∀ k, (PoolEvent.thread k act).calm = true) ∧
      phase'.rank < phase.rank ∧ phase' ≠ .abandoned := by
  cases phase with
  | queued | finished | abandoned => cases h
  | entered => exact ⟨.register 0 0, .executing, rfl, fun _ => rfl, by decide, by decide⟩
  | executing => exact ⟨.returns true, .reporting true, rfl, fun _ => rfl, Nat.lt_succ_self 4, by decide⟩
  | reporting success => exact ⟨.put, .leaving, rfl, fun _ => rfl, Nat.lt_of_sub_eq_succ rfl, by decide⟩
  | failing => exact ⟨.put, .leaving, rfl, fun _ => rfl, by decide, by decide⟩
  | leaving => exact ⟨.unregister 0, .unregistered, rfl, fun _ => rfl, by decide, by decide⟩
  | unregistered => exact ⟨.release, .finished, rfl, fun _ => rfl, by decide, by decide⟩

/-- A running thread can act. -/
private theorem thread_moves (hw : w.Drainable conf) {k : Nat} {job : Job} (hj : w.jobs[k]? = some job)
    (hr : job.phase.running = true) : ∃ e w', e.calm = true ∧ w.step conf e = some w' ∧ w'.Drainable conf ∧
      w'.rank < w.rank := by
  obtain ⟨act, phase, hp, hcalm, hlt, hne⟩ := exists_act hr
  obtain ⟨hloop, -, hjobs⟩ := perform_frame conf w k job act
  have hstep : w.step conf (.thread k act) = some ((w.perform conf k job act).setPhase k job phase) := by
    simp only [step, if_pos hw.alive, hj, Option.bind_some, hp, Option.map_some]
  have hsum : ((w.jobs.set k { job with phase }).map fun job => job.phase.rank).sum + job.phase.rank =
      (w.jobs.map fun job => job.phase.rank).sum + phase.rank :=
    InFlight.sum_set (fun job : Job => job.phase.rank) hj
  have hkeep : (w.jobs.set k { job with phase }).countP (fun job => job.phase = .abandoned) = w.abandoned := by
    apply InFlight.countP_set_same hj
    have hold : job.phase ≠ .abandoned := by
      intro he
      rw [he] at hr
      cases hr
    rw [decide_eq_false hne, decide_eq_false hold]
  refine ⟨_, _, hcalm k, hstep, ⟨step_bounded hw.bounded hstep, ?_, ?_⟩, ?_⟩
  · simp only [setPhase, hloop]
    exact hw.alive
  · simp only [abandoned, setPhase, hjobs, hkeep]
    exact hw.permits
  · simp only [rank, setPhase, hjobs, hloop]
    omega

/-- With no thread at work, the executor starts the next job. -/
private theorem queue_moves (hw : w.Drainable conf) (hthreads : 0 < conf.threads)
    (hidle : ∀ job ∈ w.jobs, job.phase.running = false) {queued : Job} (hq : queued ∈ w.jobs)
    (hphase : queued.phase = .queued) : ∃ e w', e.calm = true ∧ w.step conf e = some w' ∧ w'.Drainable conf ∧
      w'.rank < w.rank := by
  have hcount : w.runningCount < conf.threads := by
    have hzero : w.runningCount = 0 := List.countP_eq_zero.mpr fun job hj => by rw [hidle job hj]; exact nofun
    omega
  cases hk : w.jobs.findIdx? fun job => job.phase = .queued with
  | none =>
    have hno := List.findIdx?_eq_none_iff.mp hk queued hq
    exact absurd hphase (of_decide_eq_false hno)
  | some k =>
    obtain ⟨hlt, hfound, -⟩ := List.findIdx?_eq_some_iff_getElem.mp hk
    have hj : w.jobs[k]? = some w.jobs[k] := List.getElem?_eq_getElem hlt
    have hwas : w.jobs[k].phase = .queued := of_decide_eq_true hfound
    have hstep : w.step conf .start = some (w.setPhase k w.jobs[k] .entered) := by
      simp only [step, if_pos (And.intro hw.alive hcount), hk, Option.bind_some, hj, Option.map_some]
    have hsum := InFlight.sum_set (b := { w.jobs[k] with phase := .entered }) (fun job : Job => job.phase.rank) hj
    have hkeep : (w.jobs.set k { w.jobs[k] with phase := .entered }).countP
        (fun job => job.phase = .abandoned) = w.abandoned := by
      apply InFlight.countP_set_same hj
      rw [hwas]
      rfl
    refine ⟨_, _, rfl, hstep, ⟨step_bounded hw.bounded hstep, hw.alive, ?_⟩, ?_⟩
    · simp only [abandoned, setPhase, hkeep]
      exact hw.permits
    · rw [hwas] at hsum
      simp only [rank, setPhase, JobPhase.rank] at hsum ⊢
      omega

/-- With all jobs done, the main loop goes on. -/
private theorem loop_moves (hw : w.Drainable conf) (hdone : ∀ job ∈ w.jobs, job.phase.done = true)
    (hx : w.loop ≠ .exited) : ∃ e w', e.calm = true ∧ w.step conf e = some w' ∧ w'.Drainable conf ∧
      w'.rank < w.rank := by
  have hheld : w.jobs.countP (fun job => job.phase.holds) = w.abandoned := by
    apply List.countP_congr
    intro job hj
    have hd := hdone job hj
    cases hphase : job.phase with
    | finished | abandoned => simp [JobPhase.holds]
    | queued | entered | executing | reporting | failing | leaving | unregistered =>
      rw [hphase] at hd
      cases hd
  cases hl : w.loop with
  | polling =>
    have hstep : w.step conf (.get .stop) = some { w with loop := .stopping } := if_pos hl
    refine ⟨_, _, rfl, hstep, ⟨step_bounded hw.bounded hstep, (fun h => by cases h), hw.permits⟩, ?_⟩
    simp only [rank, hl, LoopPhase.rank]
    omega
  | acquiring t =>
    have hfree : 0 < w.permits := by
      have htotal := hw.bounded.permits
      have hlow := hw.permits
      simp only [inflight, hl, LoopPhase.admitted, hheld] at htotal
      omega
    have hstep : w.step conf .acquire = some { w with loop := .submitting t, permits := w.permits - 1 } := by
      simp only [step, hl, if_pos hfree]
    refine ⟨_, _, rfl, hstep, ⟨step_bounded hw.bounded hstep, (fun h => by cases h), hw.permits⟩, ?_⟩
    simp only [rank, hl, LoopPhase.rank]
    omega
  | submitting t =>
    have hstep : w.step conf .submit = some { w with
        loop := if conf.recycle ≤ w.taskCount then .recycling else .polling
        jobs := w.jobs ++ [{ task := t }] } := by
      simp only [step, hl]
    have hloop : (if conf.recycle ≤ w.taskCount then LoopPhase.recycling else .polling).rank ≤ 3 ∧
        (if conf.recycle ≤ w.taskCount then LoopPhase.recycling else .polling) ≠ .killed := by
      split
      · exact ⟨Nat.le_refl 3, (fun h => by cases h)⟩
      · exact ⟨Nat.le_succ 2, (fun h => by cases h)⟩
    refine ⟨_, _, rfl, hstep, ⟨step_bounded hw.bounded hstep, hloop.2, ?_⟩, ?_⟩
    · simpa only [abandoned, List.countP_append, List.countP_singleton, decide_eq_true_eq, reduceCtorEq,
        if_false, Nat.add_zero] using hw.permits
    · simp only [rank, hl, List.map_append, List.map_singleton, List.sum_append, List.sum_singleton]
      have hold : (LoopPhase.submitting t).rank = 11 := rfl
      have hnew : JobPhase.queued.rank = 7 := rfl
      omega
  | recycling =>
    have hstep : w.step conf .recycle =
        some { w with loop := .stopping, registry := w.registry.put timerRecycle } := if_pos hl
    refine ⟨_, _, rfl, hstep, ⟨step_bounded hw.bounded hstep, (fun h => by cases h), hw.permits⟩, ?_⟩
    simp only [rank, hl, LoopPhase.rank]
    omega
  | stopping =>
    have hall : w.jobs.all (fun job => job.phase.done) = true := List.all_eq_true.mpr hdone
    have hstep : w.step conf .drained = some { w with
        loop := .exited
        registry := if 0 < w.registry.timer then w.registry.put timerIdle else w.registry } :=
      if_pos ⟨hl, hall⟩
    refine ⟨_, _, rfl, hstep, ⟨step_bounded hw.bounded hstep, (fun h => by cases h), hw.permits⟩, ?_⟩
    simp only [rank, hl, LoopPhase.rank]
    omega
  | exited => exact absurd hl hx
  | killed => exact absurd hl hw.alive

/-- A worker that has not been killed, with a thread and with fewer cleanups that raised than it has
permits, can finish every task it took and exit, taking no other. -/
theorem drains (hthreads : 0 < conf.threads) (h : (threadedSystem conf).Reach w) (halive : w.loop ≠ .killed)
    (hlost : w.abandoned < conf.maxInflight) :
    ∃ t, (threadedSystem conf).Path (fun _ e => e.calm = true) w t ∧ t.loop = .exited ∧
      ∀ job ∈ t.jobs, job.phase.done = true := by
  have hb := reach_bounded h
  have moves : ∀ w : ThreadedWorker, w.Drainable conf → w.loop ≠ .exited → ∃ e w', e.calm = true ∧
      (threadedSystem conf).step w e = some w' ∧ w'.Drainable conf ∧ w'.rank < w.rank := by
    intro w hw hx
    by_cases hrun : ∃ job ∈ w.jobs, job.phase.running = true
    · obtain ⟨job, hj, hr⟩ := hrun
      obtain ⟨k, hk⟩ := List.getElem?_of_mem hj
      exact thread_moves hw hk hr
    · have hidle : ∀ job ∈ w.jobs, job.phase.running = false :=
        fun job hj => Bool.eq_false_iff.mpr fun hr => hrun ⟨job, hj, hr⟩
      by_cases hqueue : ∃ job ∈ w.jobs, job.phase = .queued
      · obtain ⟨job, hj, hq⟩ := hqueue
        exact queue_moves hw hthreads hidle hj hq
      · apply loop_moves hw _ hx
        intro job hj
        have hno := hidle job hj
        cases hphase : job.phase with
        | finished | abandoned => rfl
        | queued => exact absurd ⟨job, hj, hphase⟩ hqueue
        | entered | executing | reporting | failing | leaving | unregistered =>
          rw [hphase] at hno
          cases hno
  obtain ⟨t, hpath, -, hx⟩ := StepSystem.exists_path_of_rank (Drainable conf) (fun w => w.loop = .exited) rank
    moves ⟨hb, halive, hlost⟩
  exact ⟨t, hpath, hx, (reach_reported (hpath.reach h)).exited hx⟩

theorem drains_runs : ∃ w t, (threadedSystem twoTasks).Reach w ∧ w.runningCount = 2 ∧
    (threadedSystem twoTasks).Path (fun _ e => e.calm = true) w t ∧ t.loop = .exited ∧
      ∀ job ∈ t.jobs, job.phase.done = true := by
  obtain ⟨w, hr, hp⟩ := StepSystem.exists_reach_of_run (threadedSystem twoTasks) bothTaken (.init rfl)
    (fun w => w.runningCount = 2 ∧ w.loop ≠ .killed ∧ w.abandoned < twoTasks.maxInflight) (by decide +kernel)
  obtain ⟨hrun, halive, hlost⟩ := of_decide_eq_true hp
  obtain ⟨t, hpath, hx⟩ := drains (by decide) hr halive hlost
  exact ⟨w, t, hr, hrun, hpath, hx⟩

end

end ThreadedWorker
end Qraft
