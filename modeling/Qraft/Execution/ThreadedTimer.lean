import Qraft.Execution.ThreadedRuns

/-! The timer of a threaded worker: whose deadlines it counts down, and what it says when the worker
has shut down. -/
namespace Qraft

namespace LoopPhase

def closed : LoopPhase → Bool
  | .stopping | .exited | .killed => true
  | _ => false

end LoopPhase

namespace DeadlineRegistry
variable {κ : Type*} [DecidableEq κ]

omit [DecidableEq κ] in
theorem publish_deadlines (r : DeadlineRegistry κ) (now : ℚ) : (r.publish now).deadlines = r.deadlines := by
  unfold publish
  split
  · rfl
  · split
    · rfl
    · rfl

omit [DecidableEq κ] in
/-- What a call leaves on the timer. -/
theorem publish_timer_cases (r : DeadlineRegistry κ) (now : ℚ) :
    (r.timer = timerRecycle ∧ (r.publish now).timer = timerRecycle) ∨
    (r.timer ≠ timerRecycle ∧ r.deadlines = [] ∧ (r.publish now).timer = timerIdle) ∨
    (r.timer ≠ timerRecycle ∧ r.deadlines ≠ [] ∧ 0 ≤ (r.publish now).timer) := by
  unfold publish
  split
  · rename_i ht
    exact .inl ⟨ht, ht⟩
  · rename_i ht
    split
    · rename_i hmin
      have hnil : r.deadlines = [] := List.map_eq_nil_iff.mp (List.min?_eq_none_iff.mp hmin)
      refine .inr (.inl ⟨ht, hnil, ?_⟩)
      change ((single timerIdle : ℤ) : ℚ) = timerIdle
      rw [single_idle]
    · rename_i first hmin
      refine .inr (.inr ⟨ht, ?_, ?_⟩)
      · intro hnil
        rw [hnil] at hmin
        cases hmin
      · change (0 : ℚ) ≤ ((single (max ⌈Binary64.minus first now⌉ 0) : ℤ) : ℚ)
        exact_mod_cast single_nonneg (le_max_right _ _)

theorem timerRecycle_neg : (timerRecycle : ℚ) < 0 := by decide +kernel

theorem timerIdle_neg : (timerIdle : ℚ) < 0 := by decide +kernel

theorem timerIdle_ne : (timerIdle : ℚ) ≠ timerRecycle := by decide +kernel

omit [DecidableEq κ] in
/-- Only the recycle limit makes the timer say so, and nothing takes it back. -/
theorem publish_recycle (r : DeadlineRegistry κ) (now : ℚ) :
    (r.publish now).timer = timerRecycle ↔ r.timer = timerRecycle := by
  rcases r.publish_timer_cases now with ⟨ht, hp⟩ | ⟨ht, -, hp⟩ | ⟨ht, -, hp⟩
  · exact iff_of_true hp ht
  · rw [hp]
    exact iff_of_false timerIdle_ne ht
  · refine iff_of_false ?_ ht
    intro he
    rw [he] at hp
    exact absurd hp (not_le.mpr timerRecycle_neg)

theorem countdown_recycle (r : DeadlineRegistry κ) (left : ℚ≥0) :
    (r.step (.countdown left)).timer = timerRecycle ↔ r.timer = timerRecycle := by
  simp only [step]
  split
  · rename_i hpos
    refine iff_of_false ?_ ?_
    · intro he
      have hleft : (0 : ℚ) ≤ left := left.2
      have he : (left : ℚ) = timerRecycle := he
      rw [he] at hleft
      exact absurd hleft (not_le.mpr timerRecycle_neg)
    · intro he
      rw [he] at hpos
      exact absurd hpos (not_lt.mpr timerRecycle_neg.le)
  · rfl

end DeadlineRegistry

namespace ThreadedWorker
open DeadlineRegistry

section
variable {conf : WorkerConf} {w w' : ThreadedWorker} {e : PoolEvent}

/-- The timer remembers that the limit was reached. -/
def Told (conf : WorkerConf) (w : ThreadedWorker) : Prop :=
  w.registry.timer = timerRecycle ↔ conf.recycle ≤ w.taskCount ∧ w.loop.closed = true

private theorem step_told (hp : w.Paced conf) (hw : w.Told conf) (h : w.step conf e = some w') :
    w'.Told conf := by
  have hw : w.registry.timer = timerRecycle ↔ conf.recycle ≤ w.taskCount ∧ w.loop.closed = true := hw
  have still (hopen : w.loop.closed = false) (hr : w'.registry.timer = w.registry.timer)
      (hcl : w'.loop.closed = false) : w'.Told conf := by
    rw [Told, hr, hw, hopen, hcl]
    exact iff_of_false (fun h => by cases h.2) (fun h => by cases h.2)
  cases step_pool h with
  | took t hl => exact still (by rw [hl]; rfl) rfl rfl
  | acquired hl => exact still (by rw [hl]; rfl) rfl rfl
  | stopped hl =>
    have hlt := hp.polling hl
    refine iff_of_false ?_ fun h => absurd h.1 (Nat.not_le.mpr hlt)
    intro ht
    exact absurd (hw.mp ht).1 (Nat.not_le.mpr hlt)
  | submitted hl =>
    apply still (by rw [hl]; rfl) rfl
    dsimp only
    split
    · rfl
    · rfl
  | recycled hl =>
    refine iff_of_true ?_ ⟨hp.recycling hl, rfl⟩
    change ((single timerRecycle : ℤ) : ℚ) = timerRecycle
    rw [single_recycle]
  | started => exact hw
  | @moved k act job phase hl hj hphase =>
    obtain ⟨hloop, hcount, -⟩ := perform_frame conf w k job act
    have htimer : (w.perform conf k job act).registry.timer = timerRecycle ↔ w.registry.timer = timerRecycle := by
      rcases perform_registry conf w k job act with ⟨called, now, -, -, hr⟩ | ⟨now, -, hr⟩ | ⟨-, -, hr⟩
      · rw [hr]
        exact publish_recycle _ now
      · rw [hr]
        exact publish_recycle _ now
      · rw [hr]
    rw [Told]
    simp only [setPhase, hcount, hloop]
    exact htimer.trans hw
  | counted left => exact (countdown_recycle _ left).trans hw
  | drained hl hd =>
    have hsame : (if 0 < w.registry.timer then w.registry.put timerIdle else w.registry).timer = timerRecycle ↔
        w.registry.timer = timerRecycle := by
      split
      · rename_i hpos
        refine iff_of_false ?_ (fun he => absurd (he ▸ hpos) (not_lt.mpr timerRecycle_neg.le))
        change ((single timerIdle : ℤ) : ℚ) ≠ timerRecycle
        rw [single_idle]
        exact timerIdle_ne
      · rfl
    rw [Told, hsame, hw, hl]
    rfl
  | expired hl =>
    rw [Told, hw, hl]
    rfl

/-- The registry holds deadlines of unfinished jobs only, and the one of each that executes under a
timeout; with none left, the timer is idle or says that the worker is to be replaced. -/
structure Watched (conf : WorkerConf) (w : ThreadedWorker) : Prop where
  nodup : (w.registry.deadlines.map Prod.fst).Nodup
  keys : ∀ k d, Dict.get? w.registry.deadlines k = some d →
    ∃ job, w.jobs[k]? = some job ∧ job.phase.registered = true
  covers : ∀ k job, w.jobs[k]? = some job → job.phase = .executing → 0 < conf.taskTimeout job.task →
    ∃ called, Dict.get? w.registry.deadlines k = some (deadlineAt called (conf.taskTimeout job.task))
  cleared : w.registry.deadlines = [] → w.registry.timer = timerIdle ∨ w.registry.timer = timerRecycle
  exited : w.loop = .exited → w.registry.timer ≤ 0

theorem add_deadlines (r : DeadlineRegistry Nat) (k : Nat) (timeout called now : ℚ) :
    (r.add k timeout called now).deadlines = Dict.set r.deadlines k (deadlineAt called timeout) :=
  publish_deadlines _ _

theorem remove_deadlines (r : DeadlineRegistry Nat) (k : Nat) (now : ℚ) :
    (r.remove k now).deadlines = r.deadlines.filter fun entry => entry.1 ≠ k :=
  publish_deadlines _ _

/-- With no deadline left, a call that publishes leaves the timer idle or for a recycle. -/
theorem publish_cleared (r : DeadlineRegistry Nat) (now : ℚ) (h : (r.publish now).deadlines = []) :
    (r.publish now).timer = timerIdle ∨ (r.publish now).timer = timerRecycle := by
  rw [publish_deadlines] at h
  rcases r.publish_timer_cases now with ⟨-, ht⟩ | ⟨-, -, ht⟩ | ⟨-, hne, -⟩
  · exact .inr ht
  · exact .inl ht
  · exact absurd h hne

/-- What registers a deadline, and what takes it away. -/
theorem registered_of_after {phase phase' : JobPhase} {act : ThreadAct} (hp : phase.after act = some phase') :
    (phase.registered = true → (∀ now, act ≠ .unregister now) → phase'.registered = true) ∧
    (phase' = .executing → ∃ called now, act = .register called now) ∧
    (∀ called now, act = .register called now → phase' = .executing) ∧
    (∀ now, act = .unregister now → phase' = .unregistered) := by
  cases phase with
  | queued | finished | abandoned => cases act <;> cases hp
  | entered | executing | reporting | failing | leaving | unregistered =>
    cases act <;> cases hp <;> simp [JobPhase.registered]

/-- The registry of a worker one of whose jobs has gone on, the others being as they were. -/
private structure Goes (w w' : ThreadedWorker) (k : Nat) (job : Job) : Prop where
  self : w'.jobs[k]? = some job
  others : ∀ i, i ≠ k → w'.jobs[i]? = w.jobs[i]?
  unfinished : w'.loop ≠ .exited

namespace Goes
variable {k : Nat} {job : Job}

/-- The job has registered its deadline. -/
private theorem registered (h : Goes w w' k job) (hw : w.Watched conf) {called now : ℚ}
    (hreg : w'.registry = w.registry.add k (conf.taskTimeout job.task) called now)
    (hphase : job.phase = .executing) : w'.Watched conf := by
  refine ⟨?_, ?_, ?_, ?_, fun hx => absurd hx h.unfinished⟩
  · rw [hreg, add_deadlines]
    exact Dict.nodup_set hw.nodup _ _
  · intro i d hd
    rw [hreg, add_deadlines, Dict.get?_set] at hd
    by_cases hik : i = k
    · refine ⟨job, hik ▸ h.self, ?_⟩
      rw [hphase]
      rfl
    · rw [if_neg hik] at hd
      rw [h.others i hik]
      exact hw.keys i d hd
  · intro i other hi hx hpos
    rw [hreg, add_deadlines, Dict.get?_set]
    by_cases hik : i = k
    · rw [if_pos hik]
      rw [hik, h.self] at hi
      rw [← Option.some.inj hi]
      exact ⟨called, rfl⟩
    · rw [if_neg hik]
      rw [h.others i hik] at hi
      exact hw.covers i other hi hx hpos
  · rw [hreg]
    exact publish_cleared _ now

/-- It has taken its deadline away. -/
private theorem unregistered (h : Goes w w' k job) (hw : w.Watched conf) {now : ℚ}
    (hreg : w'.registry = w.registry.remove k now) (hphase : job.phase = .unregistered) : w'.Watched conf := by
  refine ⟨?_, ?_, ?_, ?_, fun hx => absurd hx h.unfinished⟩
  · rw [hreg, remove_deadlines]
    exact Dict.nodup_filter hw.nodup _
  · intro i d hd
    rw [hreg, remove_deadlines, Dict.get?_filter hw.nodup] at hd
    obtain ⟨hd, hik⟩ := Option.filter_eq_some_iff.mp hd
    rw [h.others i (of_decide_eq_true hik)]
    exact hw.keys i d hd
  · intro i other hi hx hpos
    have hik : i ≠ k := by
      rintro rfl
      rw [h.self] at hi
      rw [← Option.some.inj hi, hphase] at hx
      cases hx
    rw [h.others i hik] at hi
    obtain ⟨called, hd⟩ := hw.covers i other hi hx hpos
    refine ⟨called, ?_⟩
    rw [hreg, remove_deadlines, Dict.get?_filter hw.nodup]
    exact Option.filter_eq_some_iff.mpr ⟨hd, decide_eq_true hik⟩
  · rw [hreg]
    exact publish_cleared _ now

/-- It has done neither, and runs under no timeout if its function runs now. -/
private theorem untouched (h : Goes w w' k job) (hw : w.Watched conf) (hreg : w'.registry = w.registry)
    (hstays : ∀ before, w.jobs[k]? = some before → before.phase.registered = true → job.phase.registered = true)
    (hshort : job.phase = .executing → conf.taskTimeout job.task ≤ 0) : w'.Watched conf := by
  refine ⟨?_, ?_, ?_, ?_, fun hx => absurd hx h.unfinished⟩
  · rw [hreg]
    exact hw.nodup
  · intro i d hd
    rw [hreg] at hd
    obtain ⟨other, ho, hother⟩ := hw.keys i d hd
    by_cases hik : i = k
    · exact ⟨job, hik ▸ h.self, hstays other (hik ▸ ho) hother⟩
    · rw [h.others i hik]
      exact ⟨other, ho, hother⟩
  · intro i other hi hx hpos
    rw [hreg]
    by_cases hik : i = k
    · rw [hik, h.self] at hi
      rw [← Option.some.inj hi] at hx hpos
      exact absurd hpos (not_lt.mpr (hshort hx))
    · rw [h.others i hik] at hi
      exact hw.covers i other hi hx hpos
  · rw [hreg]
    exact hw.cleared

end Goes

/-- A worker with a job under way has not exited. -/
private theorem not_exited_of_after (hr : w.Reported) {k : Nat} {act : ThreadAct} {job : Job}
    {phase : JobPhase} (hj : w.jobs[k]? = some job) (hp : job.phase.after act = some phase) :
    w.loop ≠ .exited := by
  intro hx
  have hdone := hr.exited hx job (List.mem_of_getElem? hj)
  have hrun := (running_of_after hp).1
  cases hphase : job.phase with
  | finished | abandoned =>
    rw [hphase] at hrun
    cases hrun
  | queued | entered | executing | reporting | failing | leaving | unregistered =>
    rw [hphase] at hdone
    cases hdone

private theorem Watched.moved (hr : w.Reported) (hw : w.Watched conf) {k : Nat} {act : ThreadAct}
    {job : Job} {phase : JobPhase} (hj : w.jobs[k]? = some job) (hp : job.phase.after act = some phase) :
    ((w.perform conf k job act).setPhase k job phase).Watched conf := by
  obtain ⟨hloop, -, hjobs⟩ := perform_frame conf w k job act
  have hj' : (w.perform conf k job act).jobs[k]? = some job := by
    rw [hjobs]
    exact hj
  have hgoes : Goes w ((w.perform conf k job act).setPhase k job phase) k { job with phase } := by
    refine ⟨getElem?_setPhase_self _ phase hj', fun i hne => ?_, ?_⟩
    · rw [getElem?_setPhase_ne _ phase hne, hjobs]
    · exact fun hx => not_exited_of_after hr hj hp (hloop.symm.trans hx)
  obtain ⟨hstays, hexec, hregister, hunregister⟩ := registered_of_after hp
  rcases perform_registry conf w k job act with
    ⟨called, now, hact, htime, hreg⟩ | ⟨now, hact, hreg⟩ | ⟨hno, hshort, hreg⟩
  · exact hgoes.registered hw hreg (hregister called now hact)
  · exact hgoes.unregistered hw hreg (hunregister now hact)
  · refine hgoes.untouched hw hreg ?_ fun hx => hshort (hexec hx)
    intro before hbefore hin
    obtain rfl := Option.some.inj (hj.symm.trans hbefore)
    exact hstays hin hno

/-- The guard's countdown leaves a timer that counts nothing down. -/
private theorem Watched.counted (hw : w.Watched conf) (left : ℚ≥0) :
    ({ w with registry := w.registry.step (.countdown left) } : ThreadedWorker).Watched conf := by
  have hsame : (w.registry.step (.countdown left)).deadlines = w.registry.deadlines := by
    simp only [DeadlineRegistry.step]
    split
    · rfl
    · rfl
  have hstill : w.registry.timer ≤ 0 → (w.registry.step (.countdown left)).timer = w.registry.timer := by
    intro hle
    simp only [DeadlineRegistry.step, if_neg (not_lt.mpr hle)]
  refine ⟨?_, ?_, ?_, ?_, ?_⟩
  · rw [hsame]
    exact hw.nodup
  · rw [hsame]
    exact hw.keys
  · rw [hsame]
    exact hw.covers
  · rw [hsame]
    intro hnil
    have ht := hw.cleared hnil
    have hle : w.registry.timer ≤ 0 := by
      rcases ht with ht | ht
      · rw [ht]
        exact timerIdle_neg.le
      · rw [ht]
        exact timerRecycle_neg.le
    rw [hstill hle]
    exact ht
  · intro hx
    rw [hstill (hw.exited hx)]
    exact hw.exited hx

private theorem step_watched (hr : w.Reported) (hw : w.Watched conf) (h : w.step conf e = some w') :
    w'.Watched conf := by
  cases step_pool h with
  | took | stopped | acquired | expired => exact ⟨hw.nodup, hw.keys, hw.covers, hw.cleared, nofun⟩
  | recycled hl =>
    refine ⟨hw.nodup, hw.keys, hw.covers, fun _ => .inr ?_, nofun⟩
    change ((single timerRecycle : ℤ) : ℚ) = timerRecycle
    rw [single_recycle]
  | @submitted t hl =>
    refine ⟨hw.nodup, ?_, ?_, hw.cleared, ?_⟩
    · intro k d hd
      obtain ⟨job, hj, hp⟩ := hw.keys k d hd
      obtain ⟨hlt, -⟩ := List.getElem?_eq_some_iff.mp hj
      exact ⟨job, (List.getElem?_append_left hlt).trans hj, hp⟩
    · intro k job hj hp htime
      have hj : (w.jobs ++ [{ task := t }])[k]? = some job := hj
      by_cases hlt : k < w.jobs.length
      · rw [List.getElem?_append_left hlt] at hj
        exact hw.covers k job hj hp htime
      · rw [List.getElem?_append_right (Nat.not_lt.mp hlt)] at hj
        rw [List.mem_singleton.mp (List.mem_of_getElem? hj)] at hp
        cases hp
    · intro hx
      dsimp only at hx
      split at hx
      · cases hx
      · cases hx
  | @started k job hl hc hj hp hfirst =>
    refine ⟨hw.nodup, ?_, ?_, hw.cleared, hw.exited⟩
    · intro i d hd
      obtain ⟨other, ho, hreg⟩ := hw.keys i d hd
      have hne : i ≠ k := by
        rintro rfl
        rw [← Option.some.inj (hj.symm.trans ho), hp] at hreg
        cases hreg
      exact ⟨other, (w.getElem?_setPhase_ne _ hne).trans ho, hreg⟩
    · intro i other hi hphase htime
      rcases getElem?_setPhase w hj hi with ⟨-, rfl⟩ | ⟨-, hi⟩
      · cases hphase
      · exact hw.covers i other hi hphase htime
  | moved hl hj hp => exact hw.moved hr hj hp
  | counted left => exact hw.counted left
  | drained hl hd =>
    refine ⟨?_, ?_, ?_, ?_, ?_⟩
    · split
      · exact hw.nodup
      · exact hw.nodup
    · split
      · exact hw.keys
      · exact hw.keys
    · split
      · exact hw.covers
      · exact hw.covers
    · intro hnil
      split
      · refine .inl ?_
        change ((single timerIdle : ℤ) : ℚ) = timerIdle
        rw [single_idle]
      · rename_i hle
        rw [if_neg hle] at hnil
        exact hw.cleared hnil
    · intro _
      split
      · change ((single timerIdle : ℤ) : ℚ) ≤ 0
        rw [single_idle]
        exact timerIdle_neg.le
      · rename_i hle
        exact not_lt.mp hle

/-- Whatever the threads do, the deadlines of the registry are of unfinished jobs, every job that
executes under a timeout has its own, and a worker that has shut down leaves a timer that counts
nothing down: for a recycle if it took its fill of tasks, and idle otherwise, unless a cleanup raised. -/
theorem timer_tells (hpos : 0 < conf.recycle) (h : (threadedSystem conf).Reach w) :
    (∀ k d, Dict.get? w.registry.deadlines k = some d →
      ∃ job, w.jobs[k]? = some job ∧ job.phase.registered = true) ∧
    (∀ k job, w.jobs[k]? = some job → job.phase = .executing → 0 < conf.taskTimeout job.task →
      ∃ called, Dict.get? w.registry.deadlines k = some (deadlineAt called (conf.taskTimeout job.task))) ∧
    (w.loop = .exited → w.registry.timer ≤ 0 ∧
      ((∀ job ∈ w.jobs, job.phase ≠ .abandoned) →
        w.registry.timer = if conf.recycle ≤ w.taskCount then timerRecycle else timerIdle)) := by
  have hw : w.Watched conf := by
    apply StepSystem.ReachWhen.invariant_of Reported (Watched conf) (fun _ => reach_reported) _ _ h
    · rintro w rfl
      exact ⟨List.nodup_nil, nofun, nofun, fun _ => .inl rfl, nofun⟩
    · exact fun w e w' hr hw _ hstep => step_watched hr hw hstep
  have ht : w.Told conf := by
    apply StepSystem.ReachWhen.invariant_of (Paced conf) (Told conf) (fun _ => reach_paced hpos) _ _ h
    · rintro w rfl
      exact iff_of_false timerIdle_ne fun h => absurd h.1 (Nat.not_le.mpr hpos)
    · exact fun w e w' hp hw _ hstep => step_told hp hw hstep
  refine ⟨hw.keys, hw.covers, fun hx => ⟨hw.exited hx, fun hall => ?_⟩⟩
  have hnil : w.registry.deadlines = [] := by
    apply List.eq_nil_iff_forall_not_mem.mpr
    rintro ⟨k, d⟩ hmem
    obtain ⟨job, hj, hreg⟩ := hw.keys k d (Dict.get?_of_mem hw.nodup hmem)
    have hin := List.mem_of_getElem? hj
    have hdone := (reach_reported h).exited hx job hin
    cases hphase : job.phase with
    | abandoned => exact hall job hin hphase
    | finished =>
      rw [hphase] at hreg
      cases hreg
    | queued | entered | executing | reporting | failing | leaving | unregistered =>
      rw [hphase] at hdone
      cases hdone
  split
  · rename_i hle
    exact ht.mpr ⟨hle, by rw [hx]; rfl⟩
  · rename_i hlt
    refine (hw.cleared hnil).resolve_right fun hset => ?_
    exact hlt (ht.mp hset).1

theorem timer_tells_runs : ∃ w, (threadedSystem twoTasks).Reach w ∧ w.loop = .exited ∧ w.results.length = 2 ∧
    w.registry.timer = timerRecycle := by
  obtain ⟨w, hr, hp⟩ := StepSystem.exists_reach_of_run (threadedSystem twoTasks) bothDone (.init rfl)
    (fun w => w.loop = .exited ∧ w.results.length = 2 ∧ (w.jobs.all fun job => job.phase ≠ .abandoned) ∧
      twoTasks.recycle ≤ w.taskCount) (by decide +kernel)
  obtain ⟨hx, hlen, hall, hfull⟩ := of_decide_eq_true hp
  obtain ⟨-, -, hleft⟩ := timer_tells (show 0 < twoTasks.recycle by decide) hr
  have hno : ∀ job ∈ w.jobs, job.phase ≠ .abandoned :=
    fun job hj => of_decide_eq_true (List.all_eq_true.mp hall job hj)
  refine ⟨w, hr, hx, hlen, ?_⟩
  rw [(hleft hx).2 hno, if_pos hfull]

end

end ThreadedWorker
end Qraft
