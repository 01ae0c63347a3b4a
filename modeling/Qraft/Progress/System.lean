import Mathlib.Logic.Function.Basic
import Qraft.Foundations.Rows
import Qraft.Foundations.StepSystem
import Qraft.Progress.Report

/-! Reports on the attempts of one task, and `schedule_attempt` beside them. A transaction's writes
show when it commits, and the row locks it took are held until then. -/
namespace Qraft

inductive ReportPhase where
  | called
  /-- The attempt row is written and locked. -/
  | merged (row : ProgressRow)
  /-- `_snapshot_progress` has the task row's lock. -/
  | locked (row : ProgressRow)
  /-- Its update ran; `none` if it matched no row. -/
  | snapshotted (row : ProgressRow) (snapshot : Option JsonDict)
  | returned (written : Bool)
  /-- The transaction was rolled back. -/
  | failed

/-- A call of `report_progress`, with what it read before its transaction. -/
structure Reporting where
  attempt : AttemptId
  attemptNumber : Nat
  report : ProgressReport
  now : Time
  cutoff : Option ℤ
  phase : ReportPhase := .called

inductive SchedulePhase where
  | called
  | locked
  | inserted (row : ProgressRow)
  | returned
  | failed

inductive ProgressProcess where
  | report (p : Reporting)
  | schedule (number : Nat) (phase : SchedulePhase)

structure CommittedReport where
  attempt : AttemptId
  report : ProgressReport

/-- One task: its attempts, its own `progress` column, the locks on its rows and the processes. -/
structure Progressing where
  attempts : List ProgressRow := []
  snapshot : Option JsonDict := none
  attemptLock : AttemptId → Option Nat := fun _ => none
  taskLock : Option Nat := none
  processes : List ProgressProcess := []
  nextId : AttemptId := 0
  /-- In the order of the commits; no function reads it. -/
  commits : List CommittedReport := []

inductive ProgressEvent where
  /-- `report_progress` finds the attempt it runs in. -/
  | report (attempt : AttemptId) (report : ProgressReport) (now : Time) (interval : Nat)
  /-- The merge into the attempt row. -/
  | merge (i : Nat) (postgres : Bool)
  | lockTask (i : Nat)
  | snapshot (i : Nat)
  | commit (i : Nat)
  | rollback (i : Nat)
  | schedule (number : Nat)
  | scheduleLock (i : Nat)
  | scheduleInsert (i : Nat)
  | scheduleCommit (i : Nat)
  | scheduleRollback (i : Nat)

namespace Progressing

def attempt? (s : Progressing) (id : AttemptId) : Option ProgressRow :=
  Rows.get? (fun row : ProgressRow => row.id) s.attempts id

def setProcess (s : Progressing) (i : Nat) (p : ProgressProcess) : Progressing :=
  { s with processes := s.processes.set i p }

def setReport (s : Progressing) (i : Nat) (p : Reporting) (phase : ReportPhase) : Progressing :=
  s.setProcess i (.report { p with phase })

def progressUpdate (postgres : Bool) (row : ProgressRow) (p : Reporting) : Option ProgressRow :=
  if postgres then row.pgProgressUpdate p.report p.now p.cutoff
  else row.lockedProgressUpdate p.report p.now p.cutoff

/-- `{**merged, "attempt_id": str(attempt.id)}`. -/
def snapshotOf (p : Reporting) (row : ProgressRow) : JsonDict :=
  Dict.set (row.progress.getD []) "attempt_id" (.str (toString p.attempt))

/-- The locks of a transaction end with it. -/
def release (s : Progressing) (i : Nat) (p : Reporting) : Progressing :=
  { s with
    attemptLock := Function.update s.attemptLock p.attempt none
    taskLock := if s.taskLock = some i then none else s.taskLock }

def stepReport (s : Progressing) (i : Nat) (p : Reporting) : ProgressEvent → Option Progressing
  | .merge _ postgres =>
    match p.phase, s.attemptLock p.attempt with
    | .called, none =>
      (s.attempt? p.attempt).map fun row =>
        match progressUpdate postgres row p with
        | none => s.setReport i p (.returned false)
        | some merged =>
          { s with attemptLock := Function.update s.attemptLock p.attempt (some i) }.setReport i p
            (.merged merged)
    | _, _ => none
  | .lockTask _ =>
    match p.phase, s.taskLock with
    | .merged row, none => some ({ s with taskLock := some i }.setReport i p (.locked row))
    | _, _ => none
  | .snapshot _ =>
    match p.phase with
    | .locked row =>
      let newer := s.attempts.any fun a => p.attemptNumber < a.attemptNumber
      some (s.setReport i p (.snapshotted row (if newer then none else some (snapshotOf p row))))
    | _ => none
  | .commit _ =>
    match p.phase with
    | .snapshotted row snapshot =>
      let committed : Progressing := { s.release i p with
        attempts := Rows.updateWhere (fun a => a.id = p.attempt) (fun _ => row) s.attempts
        snapshot := snapshot.or s.snapshot
        commits := s.commits ++ [⟨p.attempt, p.report⟩] }
      some (committed.setReport i p (.returned true))
    | _ => none
  | .rollback _ =>
    match p.phase with
    | .merged _ | .locked _ | .snapshotted _ _ => some ((s.release i p).setReport i p .failed)
    | _ => none
  | _ => none

def stepSchedule (s : Progressing) (i : Nat) (number : Nat) (phase : SchedulePhase) :
    ProgressEvent → Option Progressing
  | .scheduleLock _ =>
    match phase, s.taskLock with
    | .called, none => some ({ s with taskLock := some i }.setProcess i (.schedule number .locked))
    | _, _ => none
  | .scheduleInsert _ =>
    match phase with
    | .locked =>
      -- `unique_attempt_per_task`.
      if s.attempts.any fun a => a.attemptNumber = number then none
      else
        let row : ProgressRow := { id := s.nextId, attemptNumber := number }
        some ({ s with nextId := s.nextId + 1 }.setProcess i (.schedule number (.inserted row)))
    | _ => none
  | .scheduleCommit _ =>
    match phase with
    | .inserted row =>
      some ({ s with attempts := s.attempts ++ [row], taskLock := none }.setProcess i
        (.schedule number .returned))
    | _ => none
  | .scheduleRollback _ =>
    match phase with
    | .locked | .inserted _ => some ({ s with taskLock := none }.setProcess i (.schedule number .failed))
    | _ => none
  | _ => none

def actor : ProgressEvent → Option Nat
  | .report .. | .schedule _ => none
  | .merge i _ | .lockTask i | .snapshot i | .commit i | .rollback i => some i
  | .scheduleLock i | .scheduleInsert i | .scheduleCommit i | .scheduleRollback i => some i

def step (s : Progressing) (e : ProgressEvent) : Option Progressing :=
  match e, actor e with
  | .report attempt report now interval, _ =>
    (s.attempt? attempt).map fun row =>
      { s with processes := s.processes ++ [.report {
          attempt, attemptNumber := row.attemptNumber, report, now
          cutoff := ProgressReport.cutoff now interval }] }
  | .schedule number, _ => some { s with processes := s.processes ++ [.schedule number .called] }
  | e, some i =>
    match s.processes[i]? with
    | some (.report p) => s.stepReport i p e
    | some (.schedule number phase) => s.stepSchedule i number phase e
    | none => none
  | _, none => none

end Progressing

def progressSystem : StepSystem Progressing ProgressEvent where
  init s := s = { attempts := [{ id := 0, attemptNumber := 1 }], nextId := 1 }
  step s e := s.step e

end Qraft
