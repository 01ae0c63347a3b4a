import Mathlib.Algebra.Order.Ring.Rat
import Mathlib.Tactic.Linarith
import Qraft.Foundations.StepSystem

/-! `dispatch_loop` in time: passes over the due attempts, and between them sleeps that
`_seconds_until_due` measures so as not to overshoot the next one. -/
namespace Qraft

def minSleep : ℚ := 1 / 20

def errorBackoff : ℚ := 5

structure ScheduledRow where
  id : Nat
  notBefore : ℚ
  created : ℚ

/-- `dispatch_interval`, and how slow the process is: how long an iteration may take from the clock
reading of its pass up to the sleep, and how much longer a sleep may last than it was asked for. -/
structure LoopTimes where
  dispatchInterval : ℚ
  work : ℚ
  oversleep : ℚ
  dispatchInterval_pos : 0 < dispatchInterval
  work_nonneg : 0 ≤ work
  oversleep_nonneg : 0 ≤ oversleep

inductive LoopStage where
  /-- In a pass, with the cutoff it shares. -/
  | passing (now : ℚ)
  /-- The earliest due time has been read. -/
  | measured (now : ℚ) (earliest : Option ℚ)
  | sleeping (since wake : ℚ)

structure TimedLoop where
  time : ℚ := 0
  stage : LoopStage := .sleeping 0 0
  rows : List ScheduledRow := []
  /-- The cutoffs of the passes so far; nothing reads it. -/
  passes : List ℚ := []

inductive LoopEvent where
  /-- `schedule_attempt`. -/
  | schedule (id : Nat) (notBefore : ℚ)
  /-- An attempt leaves the state SCHEDULED: by this loop or by another. -/
  | leave (id : Nat)
  /-- The query of `_seconds_until_due`. -/
  | measure
  | sleep
  /-- An exception: the loop backs off. -/
  | fail
  /-- The sleep is over, and the next pass reads the clock. -/
  | wake
  deriving DecidableEq

def secondsUntilDue (ceiling : ℚ) (earliest : Option ℚ) (now : ℚ) : ℚ :=
  match earliest with
  | none => ceiling
  | some due => max minSleep (min ceiling (due - now))

namespace TimedLoop

/-- `Min("not_before")`. -/
def earliest (s : TimedLoop) : Option ℚ := (s.rows.map ScheduledRow.notBefore).min?

/-- When the loop has gone on to its next stage. -/
def deadline (times : LoopTimes) (s : TimedLoop) : ℚ :=
  match s.stage with
  | .passing now | .measured now _ => now + times.work
  | .sleeping _ wake => wake + times.oversleep

def act (times : LoopTimes) (s : TimedLoop) (t : ℚ) : LoopEvent → Option TimedLoop
  | .schedule id notBefore => some { s with rows := s.rows ++ [⟨id, notBefore, t⟩] }
  | .leave id => some { s with rows := s.rows.filter fun r => r.id ≠ id }
  | .measure =>
    match s.stage with
    | .passing now => some { s with stage := .measured now s.earliest }
    | _ => none
  | .sleep =>
    match s.stage with
    | .measured _ earliest => some { s with stage := .sleeping t (t + secondsUntilDue times.dispatchInterval earliest t) }
    | _ => none
  | .fail =>
    match s.stage with
    | .passing _ | .measured _ _ => some { s with stage := .sleeping t (t + errorBackoff) }
    | .sleeping _ _ => none
  | .wake =>
    match s.stage with
    | .sleeping _ wake => if wake ≤ t then some { s with stage := .passing t, passes := s.passes ++ [t] } else none
    | _ => none

/-- What happens at a time, which is not later than the loop lets it be. -/
def step (times : LoopTimes) (s : TimedLoop) (e : LoopEvent × ℚ) : Option TimedLoop :=
  if s.time ≤ e.2 ∧ e.2 ≤ s.deadline times then (s.act times e.2 e.1).map fun s' => { s' with time := e.2 } else none

end TimedLoop

def dispatchLoopSystem (times : LoopTimes) : StepSystem TimedLoop (LoopEvent × ℚ) where
  init s := s = {}
  step := TimedLoop.step times

namespace TimedLoop
variable {times : LoopTimes} {s s' : TimedLoop} {t : ℚ} {r : ScheduledRow}

inductive LoopEffect (times : LoopTimes) (s : TimedLoop) (t : ℚ) : LoopEvent → TimedLoop → Prop where
  | scheduled (id : Nat) (notBefore : ℚ) : LoopEffect times s t (.schedule id notBefore)
      { s with rows := s.rows ++ [⟨id, notBefore, t⟩], time := t }
  | left (id : Nat) : LoopEffect times s t (.leave id) { s with rows := s.rows.filter (fun r => r.id ≠ id), time := t }
  | measured {now : ℚ} (hs : s.stage = .passing now) :
      LoopEffect times s t .measure { s with stage := .measured now s.earliest, time := t }
  | slept {now : ℚ} {earliest : Option ℚ} (hs : s.stage = .measured now earliest) : LoopEffect times s t .sleep
      { s with stage := .sleeping t (t + secondsUntilDue times.dispatchInterval earliest t), time := t }
  | failed (hs : ∀ since wake, s.stage ≠ .sleeping since wake) : LoopEffect times s t .fail { s with stage := .sleeping t (t + errorBackoff), time := t }
  | woke {since wake : ℚ} (hs : s.stage = .sleeping since wake) (hw : wake ≤ t) :
      LoopEffect times s t .wake { s with stage := .passing t, passes := s.passes ++ [t], time := t }

theorem step_loop {e : LoopEvent} (h : s.step times (e, t) = some s') :
    s.time ≤ t ∧ t ≤ s.deadline times ∧ LoopEffect times s t e s' := by
  rw [step] at h
  split at h
  · rename_i htime
    refine ⟨htime.1, htime.2, ?_⟩
    obtain ⟨u, hu, rfl⟩ := Option.map_eq_some_iff.mp h
    cases e with
    | schedule id notBefore =>
      cases hu
      exact .scheduled id notBefore
    | leave id =>
      cases hu
      exact .left id
    | measure =>
      simp only [act] at hu
      split at hu
      · rename_i hs
        cases hu
        exact .measured hs
      · cases hu
    | sleep =>
      simp only [act] at hu
      split at hu
      · rename_i hs
        cases hu
        exact .slept hs
      · cases hu
    | fail =>
      simp only [act] at hu
      split at hu
      · rename_i hs
        cases hu
        exact .failed (fun since wake h => by rw [hs] at h; cases h)
      · rename_i hs
        cases hu
        exact .failed (fun since wake h => by rw [hs] at h; cases h)
      · cases hu
    | wake =>
      simp only [act] at hu
      split at hu
      · rename_i hs
        split at hu
        · rename_i hw
          cases hu
          exact .woke hs hw
        · cases hu
      · cases hu
  · cases h

/-- How long the loop sleeps when it has not seen an attempt. -/
def longestSleep (times : LoopTimes) : ℚ := max minSleep times.dispatchInterval

theorem minSleep_pos : 0 < minSleep := by decide +kernel

theorem secondsUntilDue_le (times : LoopTimes) (earliest : Option ℚ) (now : ℚ) :
    secondsUntilDue times.dispatchInterval earliest now ≤ longestSleep times := by
  cases earliest with
  | none => exact le_max_right _ _
  | some due => exact max_le_max_left _ (min_le_left _ _)

/-- A sleep does not go past an attempt that is due later than in `MIN_SLEEP`. -/
theorem secondsUntilDue_due {ceiling due d now : ℚ} (h : due ≤ d) :
    now + secondsUntilDue ceiling (some due) now ≤ max (now + minSleep) d := by
  rcases le_total minSleep (min ceiling (due - now)) with hle | hle
  · refine le_trans ?_ (le_max_right _ _)
    have hmin := min_le_right ceiling (due - now)
    rw [secondsUntilDue, max_eq_right hle]
    linarith
  · refine le_trans ?_ (le_max_left _ _)
    rw [secondsUntilDue, max_eq_left hle]

/-- A pass with a cutoff at or after its due time has begun since the attempt was written. -/
def Examined (s : TimedLoop) (r : ScheduledRow) : Prop := ∃ now ∈ s.passes, r.created < now ∧ r.notBefore ≤ now

/-- The last moment at which the loop may still be asleep to an attempt. -/
def latest (times : LoopTimes) (r : ScheduledRow) : ℚ :=
  times.work + max (r.notBefore + minSleep) (r.created + longestSleep times)

/-- What the loop knows of an attempt that no pass has looked at. -/
def Awaits (times : LoopTimes) (s : TimedLoop) (r : ScheduledRow) : Prop :=
  match s.stage with
  | .passing now => now ≤ max r.created r.notBefore
  | .measured now earliest => now ≤ max r.created r.notBefore ∧
      (now ≤ r.created ∨ ∃ due, earliest = some due ∧ due ≤ r.notBefore)
  | .sleeping _ wake => wake ≤ latest times r

def gap (times : LoopTimes) : ℚ := min minSleep times.dispatchInterval

theorem gap_le (times : LoopTimes) (earliest : Option ℚ) (now : ℚ) : gap times ≤ secondsUntilDue times.dispatchInterval earliest now := by
  cases earliest with
  | none => exact min_le_right _ _
  | some due => exact (min_le_left _ _).trans (le_max_left _ _)

theorem gap_pos (times : LoopTimes) : 0 < gap times := lt_min minSleep_pos times.dispatchInterval_pos

/-- The passes lie apart, and so will the next. -/
def Spaced (times : LoopTimes) (s : TimedLoop) : Prop :=
  s.passes.Pairwise (fun a b => a + gap times ≤ b) ∧
  match s.stage with
  | .passing now | .measured now _ => (∀ pass ∈ s.passes, pass ≤ now) ∧ now ≤ s.time
  | .sleeping _ wake => ∀ pass ∈ s.passes, pass + gap times ≤ wake

private theorem step_spaced {e : LoopEvent} (hs : s.Spaced times) (h : s.step times (e, t) = some s') :
    s'.Spaced times := by
  obtain ⟨hle, -, heff⟩ := step_loop h
  obtain ⟨hpair, hstage⟩ := hs
  cases heff with
  | scheduled | left =>
    refine ⟨hpair, ?_⟩
    revert hstage
    dsimp only
    cases s.stage with
    | passing now | measured now earliest => exact fun hstage => ⟨hstage.1, hstage.2.trans hle⟩
    | sleeping since wake => exact fun hstage => hstage
  | measured hstg =>
    rw [hstg] at hstage
    exact ⟨hpair, hstage.1, hstage.2.trans hle⟩
  | slept hstg =>
    rename_i now earliest
    rw [hstg] at hstage
    refine ⟨hpair, fun pass hp => ?_⟩
    have hgap := gap_le times earliest t
    have hpass := hstage.1 pass hp
    have hnow := hstage.2
    linarith
  | failed hawake =>
    refine ⟨hpair, fun pass hp => ?_⟩
    have hbackoff : gap times ≤ errorBackoff := (min_le_left _ _).trans (by decide +kernel)
    have hpass : pass ≤ s.time := by
      revert hstage hawake
      cases s.stage with
      | passing now | measured now earliest => exact fun hstage _ => (hstage.1 pass hp).trans hstage.2
      | sleeping since wake => exact fun _ hawake => absurd rfl (hawake since wake)
    linarith
  | woke hstg hw =>
    rw [hstg] at hstage
    have hgap := gap_pos times
    refine ⟨?_, ?_, le_refl _⟩
    · rw [List.pairwise_append]
      refine ⟨hpair, List.pairwise_singleton _ _, fun pass hp now hnow => ?_⟩
      rw [List.mem_singleton.mp hnow]
      exact (hstage pass hp).trans hw
    · intro pass hp
      rcases List.mem_append.mp hp with hp | hp
      · have hpass := hstage pass hp
        linarith
      · exact (List.mem_singleton.mp hp).le

/-- No attempt is kept waiting longer than the loop may sleep. -/
structure Timely (times : LoopTimes) (s : TimedLoop) : Prop where
  clock : match s.stage with
    | .passing now | .measured now _ => now ≤ s.time ∧ s.time ≤ now + times.work
    | .sleeping since wake => since ≤ s.time ∧ s.time ≤ wake + times.oversleep ∧ wake ≤ since + longestSleep times
  awaits : ∀ r ∈ s.rows, s.Examined r ∨ s.Awaits times r

theorem latest_due (times : LoopTimes) (r : ScheduledRow) : times.work + (r.notBefore + minSleep) ≤ latest times r := by
  have hmax := le_max_left (r.notBefore + minSleep) (r.created + longestSleep times)
  rw [latest]
  linarith

theorem latest_created (times : LoopTimes) (r : ScheduledRow) : times.work + (r.created + longestSleep times) ≤ latest times r := by
  have hmax := le_max_right (r.notBefore + minSleep) (r.created + longestSleep times)
  rw [latest]
  linarith

/-- One more `MIN_SLEEP` after an iteration that began before the attempt was due. -/
theorem latest_of_le (times : LoopTimes) {now : ℚ} (h : now ≤ max r.created r.notBefore) : now + times.work + minSleep ≤ latest times r := by
  have hdue := latest_due times r
  have hcreated := latest_created times r
  have hlong : minSleep ≤ longestSleep times := le_max_left _ _
  rcases le_total r.created r.notBefore with hle | hle
  · rw [max_eq_right hle] at h
    linarith
  · rw [max_eq_left hle] at h
    linarith

private theorem step_timely {e : LoopEvent} (hs : s.Timely times) (hok : e ≠ .fail)
    (h : s.step times (e, t) = some s') : s'.Timely times := by
  obtain ⟨hle, hdead, heff⟩ := step_loop h
  obtain ⟨hclock, hawaits⟩ := hs
  have hwork := times.work_nonneg
  have hlong : minSleep ≤ longestSleep times := le_max_left _ _
  cases heff with
  | scheduled id notBefore =>
    constructor
    · revert hclock hdead
      rw [deadline]
      dsimp only
      cases s.stage with
      | passing now | measured now earliest => exact fun hdead hclock => ⟨hclock.1.trans hle, hdead⟩
      | sleeping since wake => exact fun hdead hclock => ⟨hclock.1.trans hle, hdead, hclock.2.2⟩
    · intro r hr
      rcases List.mem_append.mp hr with hr | hr
      · exact hawaits r hr
      · right
        rw [List.mem_singleton.mp hr]
        have hlatest := latest_created times ⟨id, notBefore, t⟩
        revert hclock
        rw [Awaits]
        dsimp only at hlatest ⊢
        cases s.stage with
        | passing now => exact fun hclock => le_max_of_le_left (hclock.1.trans hle)
        | measured now earliest =>
          exact fun hclock => ⟨le_max_of_le_left (hclock.1.trans hle), .inl (hclock.1.trans hle)⟩
        | sleeping since wake =>
          intro hclock
          dsimp only at hclock ⊢
          linarith [hclock.1, hclock.2.2]
  | left id =>
    constructor
    · revert hclock hdead
      rw [deadline]
      dsimp only
      cases s.stage with
      | passing now | measured now earliest => exact fun hdead hclock => ⟨hclock.1.trans hle, hdead⟩
      | sleeping since wake => exact fun hdead hclock => ⟨hclock.1.trans hle, hdead, hclock.2.2⟩
    · exact fun r hr => hawaits r (List.mem_filter.mp hr).1
  | measured hstg =>
    rename_i now
    rw [deadline, hstg] at hdead
    rw [hstg] at hclock
    refine ⟨⟨hclock.1.trans hle, hdead⟩, fun r hr => ?_⟩
    refine (hawaits r hr).imp_right fun ha => ?_
    rw [Awaits, hstg] at ha
    refine ⟨ha, .inr ?_⟩
    have hmem : r.notBefore ∈ s.rows.map ScheduledRow.notBefore := List.mem_map_of_mem hr
    cases hmin : s.earliest with
    | none =>
      rw [List.min?_eq_none_iff.mp hmin] at hmem
      cases hmem
    | some due => exact ⟨due, rfl, (List.min?_eq_some_iff.mp hmin).2 _ hmem⟩
  | slept hstg =>
    rename_i now earliest
    rw [deadline, hstg] at hdead
    have hdelay := secondsUntilDue_le times earliest t
    have hover := times.oversleep_nonneg
    have hgap := (gap_pos times).le.trans (gap_le times earliest t)
    refine ⟨⟨le_refl _, ?_, ?_⟩, fun r hr => ?_⟩
    · dsimp only
      linarith
    · linarith
    · refine (hawaits r hr).imp_right fun ha => ?_
      rw [Awaits, hstg] at ha
      obtain ⟨hnow, hseen⟩ := ha
      have hcreated := latest_created times r
      have hdue := latest_due times r
      have hmin := minSleep_pos
      rw [Awaits]
      dsimp only at hdead ⊢
      rcases hseen with hlate | ⟨due, rfl, hdue'⟩
      · linarith
      · refine (secondsUntilDue_due hdue').trans (max_le ?_ ?_)
        · have hiter := latest_of_le times hnow
          linarith
        · linarith
  | failed => exact absurd rfl hok
  | woke hstg hw =>
    refine ⟨⟨le_refl _, by dsimp only; linarith⟩, fun r hr => ?_⟩
    by_cases hex : r.created < t ∧ r.notBefore ≤ t
    · exact .inl ⟨t, List.mem_append_right _ List.mem_cons_self, hex⟩
    · right
      rw [Awaits]
      dsimp only
      rw [not_and_or, not_lt, not_le] at hex
      rcases hex with hlt | hlt
      · exact le_max_of_le_left hlt
      · exact le_max_of_le_right hlt.le

/-- Passes are at least `MIN_SLEEP` apart, or the interval if that is shorter. As long as no pass fails,
an attempt is looked at by a pass that begins no later than the work of one iteration and the oversleep
of one sleep after `MIN_SLEEP` past its due time, if it was written that long before; the interval
bounds only how long a new attempt goes unseen. -/
theorem dispatch_latency (times : LoopTimes) :
    (∀ s, (dispatchLoopSystem times).Reach s →
      s.passes.Pairwise fun a b => a + min minSleep times.dispatchInterval ≤ b) ∧
    ∀ s, (dispatchLoopSystem times).ReachWhen (fun _ e => e.1 ≠ .fail) s → ∀ r ∈ s.rows,
      (∃ now ∈ s.passes, r.created < now ∧ r.notBefore ≤ now) ∨
      s.time ≤ times.work + times.oversleep +
        max (r.notBefore + minSleep) (r.created + max minSleep times.dispatchInterval) := by
  constructor
  · intro s h
    have hs : s.Spaced times := by
      apply StepSystem.ReachWhen.invariant (Spaced times) _ _ h
      · rintro s rfl
        exact ⟨List.Pairwise.nil, fun pass hp => by cases hp⟩
      · exact fun s e s' hs _ hstep => step_spaced hs hstep
    exact hs.1
  · intro s h r hr
    have hs : s.Timely times := by
      apply StepSystem.ReachWhen.invariant (Timely times) _ _ h
      · rintro s rfl
        have hover := times.oversleep_nonneg
        have hlong : minSleep ≤ longestSleep times := le_max_left _ _
        have hmin := minSleep_pos
        refine ⟨⟨le_refl _, ?_, ?_⟩, fun r hr => by cases hr⟩
        · dsimp only
          linarith
        · linarith
      · exact fun s e s' hs hok hstep => step_timely hs hok hstep
    refine (hs.awaits r hr).imp_right fun ha => ?_
    have hover := times.oversleep_nonneg
    have hclock := hs.clock
    have hmin := minSleep_pos
    change s.time ≤ times.work + times.oversleep + max (r.notBefore + minSleep) (r.created + longestSleep times)
    have hlatest : latest times r = times.work + max (r.notBefore + minSleep) (r.created + longestSleep times) := rfl
    revert ha hclock
    rw [Awaits]
    cases s.stage with
    | passing now =>
      intro ha hclock
      have hiter := latest_of_le times ha
      linarith [hclock.2]
    | measured now earliest =>
      intro ha hclock
      have hiter := latest_of_le times ha.1
      linarith [hclock.2]
    | sleeping since wake =>
      intro ha hclock
      dsimp only at ha
      linarith [hclock.2.1]

/-- A process that needs ten milliseconds for an iteration. -/
def quickTimes : LoopTimes where
  dispatchInterval := 1 / 2
  work := 1 / 100
  oversleep := 1 / 100
  dispatchInterval_pos := by decide +kernel
  work_nonneg := by decide +kernel
  oversleep_nonneg := by decide +kernel

/-- A retry that is due in two seconds, while the loop sleeps. -/
theorem dispatch_latency_runs : ∃ s, (dispatchLoopSystem quickTimes).Reach s ∧
    (s.passes.Pairwise fun a b => a + min minSleep (1 / 2) ≤ b) ∧ ∃ r ∈ s.rows, r.notBefore = 2 ∧
      ((∃ now ∈ s.passes, r.created < now ∧ r.notBefore ≤ now) ∨
        s.time ≤ 1 / 100 + 1 / 100 + max (r.notBefore + minSleep) (r.created + max minSleep (1 / 2))) := by
  obtain ⟨s, hr, hp⟩ := StepSystem.exists_reach_of_run
    ((dispatchLoopSystem quickTimes).guard fun _ e => e.1 ≠ .fail)
    [(.wake, 0), (.measure, 1 / 1000), (.sleep, 1 / 500), (.schedule 7 2, 1 / 10), (.wake, 51 / 100)] (.init rfl)
    (fun s => s.rows.any fun r => r.notBefore = 2) (by decide +kernel)
  have hwhen := StepSystem.reachWhen_of_guard hr
  obtain ⟨r, hmem, hdue⟩ := List.any_eq_true.mp hp
  obtain ⟨hspaced, hseen⟩ := dispatch_latency quickTimes
  exact ⟨s, hwhen.reach, hspaced s hwhen.reach, r, hmem, of_decide_eq_true hdue, hseen s hwhen r hmem⟩

end TimedLoop
end Qraft
