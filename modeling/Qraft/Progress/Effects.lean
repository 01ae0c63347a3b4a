import Qraft.Progress.System

/-! What each step of a progress report, and of the scheduler beside it, does. -/
namespace Qraft
open ProgressRow

namespace Progressing

/-- The phases in which a report holds the lock on its attempt's row. -/
def InTransaction (p : Reporting) (row : ProgressRow) : Prop :=
  p.phase = .merged row ∨ p.phase = .locked row ∨ ∃ snapshot, p.phase = .snapshotted row snapshot

inductive Moved (s : Progressing) : ProgressEvent → Progressing → Prop where
  | called {attempt : AttemptId} {report : ProgressReport} {now : Time} {interval : Nat}
      {row : ProgressRow} (hrow : s.attempt? attempt = some row) :
      Moved s (.report attempt report now interval) { s with
        processes := s.processes ++ [.report {
          attempt, attemptNumber := row.attemptNumber, report, now
          cutoff := ProgressReport.cutoff now interval }] }
  | skipped {i : Nat} {postgres : Bool} {p : Reporting} {row : ProgressRow}
      (hp : s.processes[i]? = some (.report p)) (hrow : s.attempt? p.attempt = some row)
      (hno : progressUpdate postgres row p = none) :
      Moved s (.merge i postgres) (s.setReport i p (.returned false))
  | merged {i : Nat} {postgres : Bool} {p : Reporting} {row row' : ProgressRow}
      (hp : s.processes[i]? = some (.report p)) (hlock : s.attemptLock p.attempt = none)
      (hrow : s.attempt? p.attempt = some row) (hmerge : progressUpdate postgres row p = some row') :
      Moved s (.merge i postgres)
        ({ s with attemptLock := Function.update s.attemptLock p.attempt (some i) }.setReport i p
          (.merged row'))
  | lockedTask {i : Nat} {p : Reporting} {row : ProgressRow} (hp : s.processes[i]? = some (.report p))
      (hphase : p.phase = .merged row) (hlock : s.taskLock = none) :
      Moved s (.lockTask i) ({ s with taskLock := some i }.setReport i p (.locked row))
  | snapshotted {i : Nat} {p : Reporting} {row : ProgressRow} (hp : s.processes[i]? = some (.report p))
      (hphase : p.phase = .locked row) :
      Moved s (.snapshot i) (s.setReport i p (.snapshotted row
        (if s.attempts.any fun a => p.attemptNumber < a.attemptNumber then none
          else some (snapshotOf p row))))
  | committed {i : Nat} {p : Reporting} {row : ProgressRow} {snapshot : Option JsonDict}
      (hp : s.processes[i]? = some (.report p)) (hphase : p.phase = .snapshotted row snapshot) :
      Moved s (.commit i) (setReport { s.release i p with
        attempts := Rows.updateWhere (fun a => a.id = p.attempt) (fun _ => row) s.attempts
        snapshot := snapshot.or s.snapshot
        commits := s.commits ++ [⟨p.attempt, p.report⟩] } i p (.returned true))
  | rolledBack {i : Nat} {p : Reporting} (hp : s.processes[i]? = some (.report p))
      (hphase : ∃ row, InTransaction p row) :
      Moved s (.rollback i) ((s.release i p).setReport i p .failed)
  | scheduled {number : Nat} :
      Moved s (.schedule number) { s with processes := s.processes ++ [.schedule number .called] }
  | scheduleLocked {i number : Nat} (hp : s.processes[i]? = some (.schedule number .called))
      (hlock : s.taskLock = none) :
      Moved s (.scheduleLock i) ({ s with taskLock := some i }.setProcess i (.schedule number .locked))
  | scheduleInserted {i number : Nat} (hp : s.processes[i]? = some (.schedule number .locked)) :
      Moved s (.scheduleInsert i) ({ s with nextId := s.nextId + 1 }.setProcess i
        (.schedule number (.inserted { id := s.nextId, attemptNumber := number })))
  | scheduleCommitted {i number : Nat} {row : ProgressRow}
      (hp : s.processes[i]? = some (.schedule number (.inserted row))) :
      Moved s (.scheduleCommit i) ({ s with attempts := s.attempts ++ [row], taskLock := none }.setProcess
        i (.schedule number .returned))
  | scheduleRolledBack {i number : Nat} {phase : SchedulePhase}
      (hp : s.processes[i]? = some (.schedule number phase))
      (hphase : phase = .locked ∨ ∃ row, phase = .inserted row) :
      Moved s (.scheduleRollback i) ({ s with taskLock := none }.setProcess i (.schedule number .failed))

variable {s s' : Progressing} {e : ProgressEvent}

private theorem stepReport_moved {i : Nat} {p : Reporting} (hp : s.processes[i]? = some (.report p))
    (ha : actor e = some i) (h : s.stepReport i p e = some s') : Moved s e s' := by
  cases e with
  | merge k postgres =>
    cases ha
    simp only [stepReport] at h
    split at h
    · rename_i hphase hlock
      obtain ⟨row, hrow, he⟩ := Option.map_eq_some_iff.mp h
      split at he
      · rename_i hno
        cases he
        exact .skipped hp hrow hno
      · rename_i row' hmerge
        cases he
        exact .merged hp hlock hrow hmerge
    · cases h
  | lockTask k =>
    cases ha
    simp only [stepReport] at h
    split at h
    · rename_i row hphase hlock
      cases h
      exact .lockedTask hp hphase hlock
    · cases h
  | snapshot k =>
    cases ha
    simp only [stepReport] at h
    split at h
    · rename_i row hphase
      cases h
      exact .snapshotted hp hphase
    · cases h
  | commit k =>
    cases ha
    simp only [stepReport] at h
    split at h
    · rename_i row snapshot hphase
      cases h
      exact .committed hp hphase
    · cases h
  | rollback k =>
    cases ha
    simp only [stepReport] at h
    split at h
    · rename_i row hphase
      cases h
      exact .rolledBack hp ⟨row, .inl hphase⟩
    · rename_i row hphase
      cases h
      exact .rolledBack hp ⟨row, .inr (.inl hphase)⟩
    · rename_i row snapshot hphase
      cases h
      exact .rolledBack hp ⟨row, .inr (.inr ⟨snapshot, hphase⟩)⟩
    · cases h
  | report attempt report now interval => cases ha
  | schedule number => cases ha
  | scheduleLock k => cases h
  | scheduleInsert k => cases h
  | scheduleCommit k => cases h
  | scheduleRollback k => cases h

private theorem stepSchedule_moved {i number : Nat} {phase : SchedulePhase}
    (hp : s.processes[i]? = some (.schedule number phase)) (ha : actor e = some i)
    (h : s.stepSchedule i number phase e = some s') : Moved s e s' := by
  cases e with
  | scheduleLock k =>
    cases ha
    simp only [stepSchedule] at h
    split at h
    · rename_i hlock
      cases h
      exact .scheduleLocked hp hlock
    · cases h
  | scheduleInsert k =>
    cases ha
    simp only [stepSchedule] at h
    split at h
    · split at h
      · cases h
      · cases h
        exact .scheduleInserted hp
    · cases h
  | scheduleCommit k =>
    cases ha
    simp only [stepSchedule] at h
    split at h
    · cases h
      exact .scheduleCommitted hp
    · cases h
  | scheduleRollback k =>
    cases ha
    simp only [stepSchedule] at h
    split at h
    · cases h
      exact .scheduleRolledBack hp (.inl rfl)
    · rename_i row
      cases h
      exact .scheduleRolledBack hp (.inr ⟨row, rfl⟩)
    · cases h
  | report attempt report now interval => cases ha
  | schedule number => cases ha
  | merge k postgres => cases h
  | lockTask k => cases h
  | snapshot k => cases h
  | commit k => cases h
  | rollback k => cases h

theorem step_moved (h : s.step e = some s') : Moved s e s' := by
  unfold step at h
  split at h
  · obtain ⟨row, hrow, rfl⟩ := Option.map_eq_some_iff.mp h
    exact .called hrow
  · cases h
    exact .scheduled
  · rename_i i _ _ ha
    split at h
    · rename_i p hp
      exact stepReport_moved hp ha h
    · rename_i number phase hp
      exact stepSchedule_moved hp ha h
    · cases h
  · cases h

end Progressing
end Qraft
