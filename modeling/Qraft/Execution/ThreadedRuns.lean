import Qraft.Execution.ThreadedWorker

/-! Runs of a threaded worker: how much it takes on at once, and what becomes of each task it took. -/
namespace Qraft

namespace LoopPhase

/-- A task was taken that is not submitted yet. -/
def pending : LoopPhase → Nat
  | .acquiring _ | .submitting _ => 1
  | _ => 0

/-- The task to be submitted has its permit. -/
def admitted : LoopPhase → Nat
  | .submitting _ => 1
  | _ => 0

end LoopPhase

namespace ThreadedWorker

def inflight (w : ThreadedWorker) : Nat := w.jobs.countP (fun job => job.phase.holds) + w.loop.admitted

section
variable {conf : WorkerConf} {w w' : ThreadedWorker} {e : PoolEvent}

/-- Permits are handed on, never made. -/
structure Bounded (conf : WorkerConf) (w : ThreadedWorker) : Prop where
  permits : w.permits + w.inflight = conf.maxInflight
  running : w.runningCount ≤ conf.threads
  taken : w.taskCount = w.jobs.length + w.loop.pending

/-- What one act does to the permits and to the thread's hold on its job. -/
private theorem after_permits {job : Job} {phase : JobPhase} {act : ThreadAct} {k : Nat}
    (hp : job.phase.after act = some phase) :
    (phase.holds = job.phase.holds ∧ (w.perform conf k job act).permits = w.permits) ∨
    (job.phase.holds = true ∧ phase.holds = false ∧ (w.perform conf k job act).permits = w.permits + 1) := by
  cases act with
  | release =>
    cases hj : job.phase with
    | unregistered =>
      rw [hj] at hp
      cases hp
      exact .inr ⟨rfl, rfl, rfl⟩
    | queued | entered | executing | reporting | failing | leaving | finished | abandoned =>
      rw [hj] at hp
      cases hp
  | register called now =>
    cases hj : job.phase with
    | entered =>
      rw [hj] at hp
      cases hp
      refine .inl ⟨rfl, ?_⟩
      simp only [perform]
      split
      · rfl
      · rfl
    | queued | unregistered | executing | reporting | failing | leaving | finished | abandoned =>
      rw [hj] at hp
      cases hp
  | prepareRaises | returns | escapes | put | putRaises | cleanupRaises | unregister =>
    cases hj : job.phase with
    | queued | entered | executing | reporting | failing | leaving | unregistered | finished | abandoned =>
      rw [hj] at hp
      cases hp <;> exact .inl ⟨rfl, rfl⟩

/-- A thread that acts is at its job before, and is done with it only when it lets go. -/
theorem running_of_after {phase phase' : JobPhase} {act : ThreadAct} (hp : phase.after act = some phase') :
    phase.running = true ∧ phase' ≠ .queued := by
  cases phase with
  | queued | finished | abandoned => cases act <;> cases hp
  | entered | executing | reporting | failing | leaving | unregistered =>
    cases act <;> cases hp <;> exact ⟨rfl, fun h => by cases h⟩

theorem countP_set_le {p : Job → Bool} {l : List Job} {k : Nat} {a b : Job} (h : l[k]? = some a)
    (ha : p a = true) : (l.set k b).countP p ≤ l.countP p := by
  cases hb : p b with
  | true => exact Nat.le_of_eq (InFlight.countP_set_same h (hb.trans ha.symm))
  | false =>
    have hcount := InFlight.countP_set_false h ha hb
    omega

theorem step_bounded (hw : w.Bounded conf) (h : w.step conf e = some w') : w'.Bounded conf := by
  obtain ⟨hpermits, hrunning, htaken⟩ := hw
  rw [inflight] at hpermits
  cases step_pool h with
  | took t hl => exact ⟨by simpa [inflight, hl, LoopPhase.admitted] using hpermits, hrunning, by
      simp [htaken, hl, LoopPhase.pending]⟩
  | stopped hl => exact ⟨by simpa [inflight, hl, LoopPhase.admitted] using hpermits, hrunning, by
      simpa [hl, LoopPhase.pending] using htaken⟩
  | acquired hl hp =>
    refine ⟨?_, hrunning, by simpa [hl, LoopPhase.pending] using htaken⟩
    simp only [inflight, LoopPhase.admitted]
    simp only [hl, LoopPhase.admitted] at hpermits
    omega
  | submitted hl =>
    simp only [hl, LoopPhase.admitted, LoopPhase.pending] at hpermits htaken
    have hloop : (if conf.recycle ≤ w.taskCount then LoopPhase.recycling else .polling).admitted = 0 ∧
        (if conf.recycle ≤ w.taskCount then LoopPhase.recycling else .polling).pending = 0 := by
      split
      · exact ⟨rfl, rfl⟩
      · exact ⟨rfl, rfl⟩
    refine ⟨?_, ?_, ?_⟩
    · have hq : JobPhase.queued.holds = true := rfl
      simp only [inflight, hloop.1, List.countP_append, List.countP_singleton, hq, if_true]
      omega
    · have hq : JobPhase.queued.running = false := rfl
      simpa only [runningCount, List.countP_append, List.countP_singleton, hq, Bool.false_eq_true, if_false,
        Nat.add_zero] using hrunning
    · simp only [hloop.2, List.length_append, List.length_singleton]
      omega
  | recycled hl => exact ⟨by simpa [inflight, hl, LoopPhase.admitted] using hpermits, hrunning, by
      simpa [hl, LoopPhase.pending] using htaken⟩
  | @started k job hl hc hj hp hfirst =>
    refine ⟨?_, ?_, ?_⟩
    · have hholds : (w.jobs.set k { job with phase := .entered }).countP (fun job => job.phase.holds) =
          w.jobs.countP fun job => job.phase.holds :=
        InFlight.countP_set_same hj (by rw [hp]; rfl)
      simp only [inflight, setPhase, hholds]
      exact hpermits
    · have hcount : (w.jobs.set k { job with phase := .entered }).countP (fun job => job.phase.running) =
          w.jobs.countP (fun job => job.phase.running) + 1 :=
        InFlight.countP_set_true hj (by rw [hp]; rfl) rfl
      simp only [runningCount, setPhase, hcount]
      exact hc
    · simpa only [setPhase, List.length_set] using htaken
  | @moved k act job phase hl hj hp =>
    obtain ⟨hloop, hcount, hjobs⟩ := perform_frame conf w k job act
    refine ⟨?_, ?_, ?_⟩
    · simp only [inflight, setPhase, hloop, hjobs]
      rcases after_permits hp with ⟨hsame, hperm⟩ | ⟨htrue, hfalse, hperm⟩
      · have hholds : (w.jobs.set k { job with phase }).countP (fun job => job.phase.holds) =
            w.jobs.countP fun job => job.phase.holds := InFlight.countP_set_same hj hsame
        rw [hperm, hholds]
        exact hpermits
      · have hholds : (w.jobs.set k { job with phase }).countP (fun job => job.phase.holds) + 1 =
            w.jobs.countP fun job => job.phase.holds := InFlight.countP_set_false hj htrue hfalse
        rw [hperm]
        omega
    · simp only [runningCount, setPhase, hjobs]
      exact Nat.le_trans (countP_set_le hj (running_of_after hp).1) hrunning
    · simpa only [setPhase, hloop, hcount, hjobs, List.length_set] using htaken
  | counted => exact ⟨hpermits, hrunning, htaken⟩
  | drained hl hd => exact ⟨by simpa [inflight, hl, LoopPhase.admitted] using hpermits, hrunning, by
      simpa [hl, LoopPhase.pending] using htaken⟩
  | expired hl => exact ⟨by simpa [inflight, hl, LoopPhase.admitted] using hpermits, hrunning, by
      simpa [hl, LoopPhase.pending] using htaken⟩

theorem reach_bounded (h : (threadedSystem conf).Reach w) : w.Bounded conf := by
  apply StepSystem.ReachWhen.invariant (Bounded conf) _ _ h
  · rintro w rfl
    exact ⟨rfl, Nat.zero_le _, rfl⟩
  · exact fun w e w' hw _ hstep => step_bounded hw hstep

/-- The main loop counts its tasks up to the limit and then stops. -/
structure Paced (conf : WorkerConf) (w : ThreadedWorker) : Prop where
  taken : w.taskCount ≤ conf.recycle
  polling : w.loop = .polling → w.taskCount < conf.recycle
  recycling : w.loop = .recycling → conf.recycle ≤ w.taskCount

private theorem step_paced (hw : w.Paced conf) (h : w.step conf e = some w') : w'.Paced conf := by
  cases step_pool h with
  | took t hl => exact ⟨hw.polling hl, nofun, nofun⟩
  | stopped | acquired | recycled | drained | expired => exact ⟨hw.taken, nofun, nofun⟩
  | submitted hl =>
    refine ⟨hw.taken, ?_, ?_⟩
    · intro hpoll
      dsimp only at hpoll
      split at hpoll
      · cases hpoll
      · rename_i hlt
        exact Nat.not_le.mp hlt
    · intro hrec
      dsimp only at hrec
      split at hrec
      · rename_i hle
        exact hle
      · cases hrec
  | started | counted => exact ⟨hw.taken, hw.polling, hw.recycling⟩
  | @moved k act job phase hl hj hp =>
    obtain ⟨hloop, hcount, -⟩ := perform_frame conf w k job act
    refine ⟨?_, ?_, ?_⟩
    · simpa only [setPhase, hcount] using hw.taken
    · simpa only [setPhase, hcount, hloop] using hw.polling
    · simpa only [setPhase, hcount, hloop] using hw.recycling

theorem reach_paced (hpos : 0 < conf.recycle) (h : (threadedSystem conf).Reach w) : w.Paced conf := by
  apply StepSystem.ReachWhen.invariant (Paced conf) _ _ h
  · rintro w rfl
    exact ⟨Nat.zero_le _, fun _ => hpos, nofun⟩
  · exact fun w e w' hw _ hstep => step_paced hw hstep

/-- Every result is of a task that is past its report, and no task has two. -/
structure Reported (w : ThreadedWorker) : Prop where
  distinct : (w.results.map fun r => r.ticket).Nodup
  past : ∀ r ∈ w.results, ∃ job, w.jobs[r.ticket]? = some job ∧ job.phase.past = true
  exited : w.loop = .exited → ∀ job ∈ w.jobs, job.phase.done = true

/-- A job past its report stays so; putting its result is what takes it there, unless it is lost. -/
theorem past_of_after {phase phase' : JobPhase} {act : ThreadAct} (hp : phase.after act = some phase') :
    (phase.past = true → phase'.past = true) ∧
    (phase.past = false → phase'.past = true → act = .put ∨ act = .escapes ∨ (act = .putRaises ∧ phase = .failing)) ∧
    (act = .put → phase.past = false ∧ phase'.past = true) := by
  cases phase with
  | queued | finished | abandoned => cases act <;> cases hp
  | entered | executing | reporting | failing | leaving | unregistered =>
    cases act <;> cases hp <;> simp [JobPhase.past]

/-- The jobs after one of them has moved. -/
theorem getElem?_setPhase (w : ThreadedWorker) {k i : Nat} {job other : Job} {phase : JobPhase}
    (hj : w.jobs[k]? = some job) (hi : (w.setPhase k job phase).jobs[i]? = some other) :
    (i = k ∧ other = { job with phase }) ∨ (i ≠ k ∧ w.jobs[i]? = some other) := by
  have hi : (w.jobs.set k { job with phase })[i]? = some other := hi
  by_cases hik : i = k
  · subst hik
    obtain ⟨hlt, -⟩ := List.getElem?_eq_some_iff.mp hj
    rw [List.getElem?_set_self hlt] at hi
    exact .inl ⟨rfl, (Option.some.inj hi).symm⟩
  · rw [List.getElem?_set_ne fun h => hik h.symm] at hi
    exact .inr ⟨hik, hi⟩

theorem getElem?_setPhase_self (w : ThreadedWorker) {k : Nat} {job : Job} (phase : JobPhase)
    (hj : w.jobs[k]? = some job) : (w.setPhase k job phase).jobs[k]? = some { job with phase } := by
  obtain ⟨hlt, -⟩ := List.getElem?_eq_some_iff.mp hj
  exact List.getElem?_set_self hlt

theorem getElem?_setPhase_ne (w : ThreadedWorker) {k i : Nat} {job : Job} (phase : JobPhase) (hne : i ≠ k) :
    (w.setPhase k job phase).jobs[i]? = w.jobs[i]? := List.getElem?_set_ne fun h => hne h.symm

/-- Only `put` adds a result, the one of its job. -/
theorem perform_results (conf : WorkerConf) (w : ThreadedWorker) (k : Nat) (job : Job) (act : ThreadAct) :
    (act = .put ∧ ∃ success, (w.perform conf k job act).results = w.results ++ [{ ticket := k, success }]) ∨
    (act ≠ .put ∧ (w.perform conf k job act).results = w.results) := by
  cases act with
  | put => exact .inl ⟨rfl, _, rfl⟩
  | register called now =>
    refine .inr ⟨(fun h => by cases h), ?_⟩
    simp only [perform]
    split
    · rfl
    · rfl
  | prepareRaises | returns | escapes | putRaises | cleanupRaises | unregister | release =>
    exact .inr ⟨(fun h => by cases h), rfl⟩

private theorem step_reported (hw : w.Reported) (h : w.step conf e = some w') : w'.Reported := by
  have grown {jobs : List Job} : ∀ r ∈ w.results, ∃ job, (w.jobs ++ jobs)[r.ticket]? = some job ∧
      job.phase.past = true := by
    intro r hr
    obtain ⟨job, hj, hp⟩ := hw.past r hr
    obtain ⟨hlt, -⟩ := List.getElem?_eq_some_iff.mp hj
    exact ⟨job, (List.getElem?_append_left hlt).trans hj, hp⟩
  cases step_pool h with
  | took | stopped | acquired | recycled | expired => exact ⟨hw.distinct, hw.past, (fun h => by cases h)⟩
  | counted => exact ⟨hw.distinct, hw.past, hw.exited⟩
  | submitted hl =>
    refine ⟨hw.distinct, grown, ?_⟩
    intro hx
    dsimp only at hx
    split at hx
    · cases hx
    · cases hx
  | drained hl hd => exact ⟨hw.distinct, hw.past, fun _ => hd⟩
  | @started k job hl hc hj hp hfirst =>
    refine ⟨hw.distinct, ?_, ?_⟩
    · intro r hr
      obtain ⟨other, ho, hpast⟩ := hw.past r hr
      have hne : r.ticket ≠ k := by
        intro he
        rw [he, hj] at ho
        rw [← Option.some.inj ho, hp] at hpast
        cases hpast
      exact ⟨other, (w.getElem?_setPhase_ne _ hne).trans ho, hpast⟩
    · intro hx
      have hdone := hw.exited hx job (List.mem_of_getElem? hj)
      rw [hp] at hdone
      cases hdone
  | @moved k act job phase hl hj hp =>
    obtain ⟨hloop, -, hjobs⟩ := perform_frame conf w k job act
    have hj' : (w.perform conf k job act).jobs[k]? = some job := by
      rw [hjobs]
      exact hj
    obtain ⟨hstays, -, hput⟩ := past_of_after hp
    have kept : ∀ r ∈ w.results, ∃ other,
        ((w.perform conf k job act).setPhase k job phase).jobs[r.ticket]? = some other ∧
          other.phase.past = true := by
      intro r hr
      obtain ⟨other, ho, hpast⟩ := hw.past r hr
      by_cases he : r.ticket = k
      · rw [he, hj] at ho
        rw [← Option.some.inj ho] at hpast
        rw [he]
        exact ⟨_, getElem?_setPhase_self _ phase hj', hstays hpast⟩
      · refine ⟨other, ?_, hpast⟩
        rw [getElem?_setPhase_ne _ phase he, hjobs]
        exact ho
    have hexited : w.loop = .exited → False := by
      intro hx
      have hdone := hw.exited hx job (List.mem_of_getElem? hj)
      have hrun := (running_of_after hp).1
      cases hphase : job.phase with
      | finished | abandoned =>
        rw [hphase] at hrun
        cases hrun
      | queued | entered | executing | reporting | failing | leaving | unregistered =>
        rw [hphase] at hdone
        cases hdone
    have hexit : ((w.perform conf k job act).setPhase k job phase).loop = .exited →
        ∀ job' ∈ ((w.perform conf k job act).setPhase k job phase).jobs, job'.phase.done = true :=
      fun hx => absurd (hloop.symm.trans hx) hexited
    rcases perform_results conf w k job act with ⟨rfl, success, hr⟩ | ⟨-, hr⟩
    · obtain ⟨hbefore, hafter⟩ := hput rfl
      have hnew : k ∉ w.results.map fun r => r.ticket := by
        intro hmem
        obtain ⟨old, hold, rfl⟩ := List.mem_map.mp hmem
        obtain ⟨other, ho, hpast⟩ := hw.past old hold
        obtain rfl := Option.some.inj (hj.symm.trans ho)
        rw [hbefore] at hpast
        cases hpast
      have hresults : ((w.perform conf k job .put).setPhase k job phase).results =
          w.results ++ [{ ticket := k, success }] := hr
      refine ⟨?_, ?_, hexit⟩
      · rw [hresults, List.map_append, List.map_singleton, ← List.concat_eq_append]
        exact List.Nodup.concat hnew hw.distinct
      · intro r hmem
        rw [hresults] at hmem
        rcases List.mem_append.mp hmem with hmem | hmem
        · exact kept r hmem
        · rw [List.mem_singleton.mp hmem]
          exact ⟨_, getElem?_setPhase_self _ phase hj', hafter⟩
    · have hresults : ((w.perform conf k job act).setPhase k job phase).results = w.results := hr
      rw [← hresults] at kept
      refine ⟨?_, kept, hexit⟩
      rw [hresults]
      exact hw.distinct

/-- No result is lost: the function raises nothing but an `Exception`, and the error of the wrapper
itself can be put. -/
def reports (w : ThreadedWorker) : PoolEvent → Bool
  | .thread _ .escapes => false
  | .thread k .putRaises => w.jobs[k]?.all fun job => job.phase ≠ .failing
  | _ => true

/-- Every task past its report has a result. -/
def Complete (w : ThreadedWorker) : Prop :=
  ∀ k job, w.jobs[k]? = some job → job.phase.past = true → k ∈ w.results.map fun r => r.ticket

private theorem step_complete (hw : w.Complete) (hok : w.reports e = true) (h : w.step conf e = some w') :
    w'.Complete := by
  cases step_pool h with
  | took | stopped | acquired | recycled | expired | counted | drained => exact hw
  | @submitted t hl =>
    intro k job hj hpast
    have hj : (w.jobs ++ [{ task := t }])[k]? = some job := hj
    by_cases hlt : k < w.jobs.length
    · rw [List.getElem?_append_left hlt] at hj
      exact hw k job hj hpast
    · rw [List.getElem?_append_right (Nat.not_lt.mp hlt)] at hj
      rw [List.mem_singleton.mp (List.mem_of_getElem? hj)] at hpast
      cases hpast
  | @started k job hl hc hj hp hfirst =>
    intro i other hi hpast
    rcases getElem?_setPhase w hj hi with ⟨-, rfl⟩ | ⟨-, hi⟩
    · cases hpast
    · exact hw i other hi hpast
  | @moved k act job phase hl hj hp =>
    obtain ⟨-, -, hjobs⟩ := perform_frame conf w k job act
    intro i other hi hpast
    have hold : i ∈ w.results.map (fun r => r.ticket) →
        i ∈ ((w.perform conf k job act).setPhase k job phase).results.map fun r => r.ticket := by
      intro hmem
      change i ∈ (w.perform conf k job act).results.map fun r => r.ticket
      rcases perform_results conf w k job act with ⟨-, success, hr⟩ | ⟨-, hr⟩
      · rw [hr, List.map_append]
        exact List.mem_append_left _ hmem
      · rw [hr]
        exact hmem
    have hj' : (w.perform conf k job act).jobs[k]? = some job := by
      rw [hjobs]
      exact hj
    rcases getElem?_setPhase _ hj' hi with ⟨rfl, rfl⟩ | ⟨-, hi⟩
    · cases hbefore : job.phase.past with
      | true => exact hold (hw i job hj hbefore)
      | false =>
        rcases (past_of_after hp).2.1 hbefore hpast with rfl | rfl | ⟨rfl, hfail⟩
        · rcases perform_results conf w i job .put with ⟨-, success, hr⟩ | ⟨hne, -⟩
          · change i ∈ (w.perform conf i job .put).results.map fun r => r.ticket
            rw [hr, List.map_append]
            exact List.mem_append_right _ List.mem_cons_self
          · exact absurd rfl hne
        · cases hok
        · simp [reports, hj, hfail] at hok
    · rw [hjobs] at hi
      exact hold (hw i other hi hpast)

/-- A worker takes on at most `max_inflight` tasks at once and runs at most `threads` of them; no
permit is made, and one is lost only with a cleanup that raises. It takes no more tasks than the
recycle limit. -/
theorem backpressure (h : (threadedSystem conf).Reach w) :
    w.permits + w.inflight = conf.maxInflight ∧ w.runningCount ≤ conf.threads ∧
    w.taskCount = w.jobs.length + w.loop.pending ∧ (0 < conf.recycle → w.taskCount ≤ conf.recycle) := by
  have hb := reach_bounded h
  exact ⟨hb.permits, hb.running, hb.taken, fun hpos => (reach_paced hpos h).taken⟩

/-- Two tasks, the first under a timeout, on two threads; the worker is replaced after them. -/
def twoTasks : WorkerConf := { threads := 2, maxInflight := 2, recycle := 2 }

def bothTaken : List PoolEvent :=
  [.get (.task { q2TaskId := 7, timeout := some 5 }), .acquire, .submit, .get (.task { q2TaskId := 8 }), .start,
    .thread 0 (.register 0 0), .acquire, .submit, .recycle, .start]

def bothDone : List PoolEvent :=
  bothTaken ++ [.thread 1 .prepareRaises, .thread 0 (.returns true), .thread 1 .put, .thread 0 .put,
    .thread 0 (.unregister 1), .thread 1 (.unregister 1), .thread 1 .release, .thread 0 .release, .drained]

theorem backpressure_runs : ∃ w, (threadedSystem twoTasks).Reach w ∧ w.permits = 0 ∧ w.runningCount = 2 ∧
    w.permits + w.inflight = 2 ∧ w.runningCount ≤ 2 ∧
    w.taskCount = w.jobs.length + w.loop.pending ∧ (0 < twoTasks.recycle → w.taskCount ≤ 2) := by
  obtain ⟨w, hr, hp⟩ := StepSystem.exists_reach_of_run (threadedSystem twoTasks) bothTaken (.init rfl)
    (fun w => w.permits = 0 ∧ w.runningCount = 2) (by decide +kernel)
  have hp := of_decide_eq_true hp
  exact ⟨w, hr, hp.1, hp.2, backpressure hr⟩

theorem reach_reported (h : (threadedSystem conf).Reach w) : w.Reported := by
  apply StepSystem.ReachWhen.invariant Reported _ _ h
  · rintro w rfl
    exact ⟨List.nodup_nil, nofun, nofun⟩
  · exact fun w e w' hw _ hstep => step_reported hw hstep

/-- No task is reported twice, and a worker that has shut down within its grace period has reported
every task it took, as long as no function raises more than an `Exception` and the queue takes the
error of the wrapper itself. -/
theorem results_once :
    (∀ w, (threadedSystem conf).Reach w → (w.results.map fun r => r.ticket).Nodup ∧
      ∀ r ∈ w.results, r.ticket < w.taskCount) ∧
    ∀ w, (threadedSystem conf).ReachWhen (fun w e => w.reports e = true) w → w.loop = .exited →
      (w.results.map fun r => r.ticket).Perm (List.range w.taskCount) := by
  have bound {w : ThreadedWorker} (h : (threadedSystem conf).Reach w) :
      ∀ r ∈ w.results, r.ticket < w.jobs.length := by
    intro r hr
    obtain ⟨job, hj, -⟩ := (reach_reported h).past r hr
    exact (List.getElem?_eq_some_iff.mp hj).1
  constructor
  · intro w h
    refine ⟨(reach_reported h).distinct, fun r hr => ?_⟩
    have hlt := bound h r hr
    have htaken := (reach_bounded h).taken
    omega
  · intro w h hx
    have hr := reach_reported h.reach
    have hcomplete : w.Complete := by
      apply StepSystem.ReachWhen.invariant Complete _ _ h
      · rintro w rfl k job hj
        cases hj
      · exact fun w e w' hw hok hstep => step_complete hw hok hstep
    have htaken : w.taskCount = w.jobs.length := by
      have htaken := (reach_bounded h.reach).taken
      rw [hx] at htaken
      exact htaken
    apply (List.perm_ext_iff_of_nodup hr.distinct List.nodup_range).mpr
    intro k
    rw [List.mem_range, htaken]
    constructor
    · intro hk
      obtain ⟨r, hmem, rfl⟩ := List.mem_map.mp hk
      exact bound h.reach r hmem
    · intro hk
      have hj : w.jobs[k]? = some w.jobs[k] := List.getElem?_eq_getElem hk
      have hdone := hr.exited hx w.jobs[k] (List.getElem_mem hk)
      apply hcomplete k w.jobs[k] hj
      cases hphase : w.jobs[k].phase with
      | finished | abandoned => rfl
      | queued | entered | executing | reporting | failing | leaving | unregistered =>
        rw [hphase] at hdone
        cases hdone

theorem results_once_runs : ∃ w, (threadedSystem twoTasks).Reach w ∧ w.loop = .exited ∧
    (w.results.map fun r => r.ticket) = [1, 0] ∧ (w.results.map fun r => r.ticket).Nodup ∧
    (w.results.map fun r => r.ticket).Perm (List.range w.taskCount) := by
  obtain ⟨w, hr, hp⟩ := StepSystem.exists_reach_of_run
    ((threadedSystem twoTasks).guard fun w e => w.reports e = true) bothDone (.init rfl)
    (fun w => w.loop = .exited ∧ (w.results.map fun r => r.ticket) = [1, 0]) (by decide +kernel)
  obtain ⟨hx, horder⟩ := of_decide_eq_true hp
  have hwhen := StepSystem.reachWhen_of_guard hr
  obtain ⟨hdistinct, hcomplete⟩ := @results_once twoTasks
  exact ⟨w, hwhen.reach, hx, horder, (hdistinct w hwhen.reach).1, hcomplete w hwhen hx⟩

end

end ThreadedWorker
end Qraft
