import Qraft.Foundations.Rows
import Qraft.Foundations.StepSystem
import Qraft.Models.Values

/-! `QraftOrmBroker.dequeue`: three lanes on one queue table, each scanned by a read and then one
conditional update a row, while others scan, enqueue and delete. -/
namespace Qraft

/-- A row of Django-Q2's queue table. -/
structure OrmQ where
  id : Nat
  key : String
  payload : String
  lock : Time
  deriving DecidableEq

/-- What a row keeps from its enqueue on. -/
def OrmQ.ident (r : OrmQ) : Nat × String × String := (r.id, r.key, r.payload)

/-- The lanes of a broker, in the order they are polled. -/
inductive Lane where
  | high
  | base
  | low
  deriving DecidableEq

namespace Lane

def key (listKey : String) : Lane → String
  | high => listKey ++ "--high"
  | base => listKey
  | low => listKey ++ "--low"

def next? : Lane → Option Lane
  | high => some base
  | base => some low
  | low => none

def higher : Lane → List Lane
  | high => []
  | base => [high]
  | low => [high, base]

end Lane

/-- `timezone.now()` in one process; clocks need not agree. -/
structure ClockReading where
  time : Time
  value : Time
  deriving DecidableEq

/-- A lock time from `timeout()`, and how long it is good for. -/
structure LockStamp where
  time : Time
  period : Nat
  lock : Time
  deriving DecidableEq

/-- A conditional update that hit its row. -/
structure QueueLease where
  row : Nat
  key : String
  call : Nat
  stamp : LockStamp
  deriving DecidableEq

/-- An answered lane query, and the table it was asked of. -/
structure LaneScan where
  call : Nat
  lane : Lane
  now : ClockReading
  table : List OrmQ
  answer : List OrmQ

/-- A conditional update that hit no row, and the table it was tried on. -/
structure LostUpdate where
  call : Nat
  task : OrmQ
  table : List OrmQ

inductive ScanPhase where
  /-- The clock is read next for the filter of a lane. -/
  | polling (lane : Lane)
  | filtering (lane : Lane) (now : ClockReading)
  /-- Its query was answered; the first of `tasks` is next. -/
  | locking (lane : Lane) (now : ClockReading) (tasks taskList : List OrmQ)
  /-- The update of a row is about to run. -/
  | updating (lane : Lane) (now : ClockReading) (task : OrmQ) (tasks taskList : List OrmQ) (stamp : LockStamp)
  | returned (lane : Lane) (taskList : List OrmQ)
  | slept
  deriving DecidableEq

structure DequeueCall where
  listKey : String
  phase : ScanPhase := .polling .high

structure OrmQueue where
  rows : List OrmQ := []
  nextId : Nat := 0
  calls : List DequeueCall := []
  time : Time := 0
  /-- From here on, records of the run that nothing reads. -/
  readings : List ClockReading := []
  stamps : List LockStamp := []
  scans : List LaneScan := []
  leases : List QueueLease := []
  lost : List LostUpdate := []
  enqueued : List OrmQ := []
  deleted : List Nat := []

inductive QueueEvent where
  | enqueue (key payload : String) (lock : Time)
  /-- Rows are acknowledged, failed or purged. -/
  | delete (ids : List Nat)
  | dequeue (listKey : String)
  | readClock (i : Nat) (value : Time)
  | query (i : Nat) (answer : List OrmQ)
  | timeout (i : Nat) (lock : Time) (period : Nat)
  | update (i : Nat)

namespace ScanPhase

def lane : ScanPhase → Lane
  | polling lane | filtering lane _ | locking lane _ _ _ | updating lane _ _ _ _ _ | returned lane _ => lane
  | slept => .low

/-- Rows that were read and not yet tried. -/
def pending : ScanPhase → List OrmQ
  | locking _ _ tasks _ => tasks
  | updating _ _ task tasks _ _ => task :: tasks
  | polling _ | filtering _ _ | returned _ _ | slept => []

/-- The reading its filter used. -/
def reading? : ScanPhase → Option ClockReading
  | filtering _ now | locking _ now _ _ | updating _ now _ _ _ _ => some now
  | polling _ | returned _ _ | slept => none

def taskList : ScanPhase → List OrmQ
  | locking _ _ _ taskList | updating _ _ _ _ taskList _ | returned _ taskList => taskList
  | polling _ | filtering _ _ | slept => []

/-- The loop over `tasks` goes on, or the lane is done: what it took is returned, and if that is
nothing the next lane is polled. -/
def carryOn (lane : Lane) (now : ClockReading) (tasks taskList : List OrmQ) : ScanPhase :=
  if tasks ≠ [] then locking lane now tasks taskList
  else if taskList ≠ [] then returned lane taskList
  else
    match lane.next? with
    | some next => polling next
    | none => slept

end ScanPhase

namespace OrmQueue

/-- An answer to `filter(key=key, lock__lt=now)[0:BULK]`, in whatever order. -/
def answers (bulk : Nat) (rows : List OrmQ) (key : String) (now : Time) (answer : List OrmQ) : Bool :=
  let due (r : OrmQ) : Bool := r.key = key && decide (r.lock < now)
  decide answer.Nodup && answer.all (fun r => r ∈ rows && due r) &&
    decide (answer.length = min bulk (rows.filter due).length)

def setPhase (s : OrmQueue) (i : Nat) (phase : ScanPhase) : OrmQueue :=
  { s with calls := s.calls.modify i fun d => { d with phase } }

def act (bulk : Nat) (s : OrmQueue) (t : Time) : QueueEvent → Option OrmQueue
  | .enqueue key payload lock =>
    let row : OrmQ := { id := s.nextId, key, payload, lock }
    some { s with rows := s.rows ++ [row], nextId := s.nextId + 1, enqueued := s.enqueued ++ [row] }
  | .delete ids =>
    if ids.all fun id => s.rows.any fun r => r.id = id then
      some { s with rows := s.rows.filter fun r => r.id ∉ ids, deleted := s.deleted ++ ids }
    else none
  | .dequeue listKey => some { s with calls := s.calls ++ [{ listKey }] }
  | .readClock i value =>
    s.calls[i]?.bind fun d =>
      match d.phase with
      | .polling lane =>
        let now : ClockReading := ⟨t, value⟩
        some { s.setPhase i (.filtering lane now) with readings := s.readings ++ [now] }
      | _ => none
  | .query i answer =>
    s.calls[i]?.bind fun d =>
      match d.phase with
      | .filtering lane now =>
        if answers bulk s.rows (lane.key d.listKey) now.value answer then
          some { s.setPhase i (.carryOn lane now answer []) with
            scans := s.scans ++ [⟨i, lane, now, s.rows, answer⟩] }
        else none
      | _ => none
  | .timeout i lock period =>
    s.calls[i]?.bind fun d =>
      match d.phase with
      | .locking lane now (task :: tasks) taskList =>
        let stamp : LockStamp := ⟨t, period, lock⟩
        some { s.setPhase i (.updating lane now task tasks taskList stamp) with stamps := s.stamps ++ [stamp] }
      | _ => none
  | .update i =>
    s.calls[i]?.bind fun d =>
      match d.phase with
      | .updating lane now task tasks taskList stamp =>
        if s.rows.any fun r => r.id = task.id && r.lock = task.lock then
          some { s.setPhase i (.carryOn lane now tasks (taskList ++ [task])) with
            rows := Rows.updateWhere (fun r => r.id = task.id && r.lock = task.lock)
              (fun r => { r with lock := stamp.lock }) s.rows
            leases := s.leases ++ [⟨task.id, task.key, i, stamp⟩] }
        else some { s.setPhase i (.carryOn lane now tasks taskList) with
          lost := s.lost ++ [⟨i, task, s.rows⟩] }
      | _ => none

def step (bulk : Nat) (s : OrmQueue) (e : QueueEvent × Time) : Option OrmQueue :=
  if e.2 < s.time then none else (s.act bulk e.2 e.1).map fun s' => { s' with time := e.2 }

/-- `timeout()` returns a lock time later than every clock reading within its period. -/
def Timely (s : OrmQueue) : Prop :=
  ∀ stamp ∈ s.stamps, 0 < stamp.period ∧
    ∀ now ∈ s.readings, stamp.time + stamp.period ≤ now.time ∨ now.value < stamp.lock

end OrmQueue

def ormQueueSystem (bulk : Nat) : StepSystem OrmQueue (QueueEvent × Time) where
  init s := s = {}
  step := OrmQueue.step bulk

namespace OrmQueue
variable {bulk : Nat} {s s' : OrmQueue} {t : Time}

inductive Effect (bulk : Nat) (s : OrmQueue) (t : Time) : OrmQueue → Prop
  | enqueued (key payload : String) (lock : Time) : Effect bulk s t { s with
      rows := s.rows ++ [⟨s.nextId, key, payload, lock⟩], nextId := s.nextId + 1
      enqueued := s.enqueued ++ [⟨s.nextId, key, payload, lock⟩], time := t }
  | deleted (ids : List Nat) (h : ∀ id ∈ ids, ∃ r ∈ s.rows, r.id = id) : Effect bulk s t { s with
      rows := s.rows.filter fun r => r.id ∉ ids, deleted := s.deleted ++ ids, time := t }
  | called (listKey : String) : Effect bulk s t { s with calls := s.calls ++ [{ listKey }], time := t }
  | read {i : Nat} {d : DequeueCall} {lane : Lane} (value : Time) (hd : s.calls[i]? = some d)
      (hp : d.phase = .polling lane) : Effect bulk s t { s.setPhase i (.filtering lane ⟨t, value⟩) with
        readings := s.readings ++ [⟨t, value⟩], time := t }
  | queried {i : Nat} {d : DequeueCall} {lane : Lane} {now : ClockReading} {answer : List OrmQ}
      (hd : s.calls[i]? = some d) (hp : d.phase = .filtering lane now)
      (hrows : ∀ r ∈ answer, r ∈ s.rows ∧ r.key = lane.key d.listKey ∧ r.lock < now.value)
      (hans : answers bulk s.rows (lane.key d.listKey) now.value answer = true) :
      Effect bulk s t { s.setPhase i (.carryOn lane now answer []) with
        scans := s.scans ++ [⟨i, lane, now, s.rows, answer⟩], time := t }
  | stamped {i : Nat} {d : DequeueCall} {lane : Lane} {now : ClockReading} {task : OrmQ}
      {tasks taskList : List OrmQ} (lock : Time) (period : Nat) (hd : s.calls[i]? = some d)
      (hp : d.phase = .locking lane now (task :: tasks) taskList) :
      Effect bulk s t { s.setPhase i (.updating lane now task tasks taskList ⟨t, period, lock⟩) with
        stamps := s.stamps ++ [⟨t, period, lock⟩], time := t }
  | leased {i : Nat} {d : DequeueCall} {lane : Lane} {now : ClockReading} {task row : OrmQ}
      {tasks taskList : List OrmQ} {stamp : LockStamp} (hd : s.calls[i]? = some d)
      (hp : d.phase = .updating lane now task tasks taskList stamp) (hrow : row ∈ s.rows)
      (hid : row.id = task.id) (hlock : row.lock = task.lock) :
      Effect bulk s t { s.setPhase i (.carryOn lane now tasks (taskList ++ [task])) with
        rows := Rows.updateWhere (fun r => r.id = task.id && r.lock = task.lock)
          (fun r => { r with lock := stamp.lock }) s.rows
        leases := s.leases ++ [⟨task.id, task.key, i, stamp⟩], time := t }
  | missed {i : Nat} {d : DequeueCall} {lane : Lane} {now : ClockReading} {task : OrmQ}
      {tasks taskList : List OrmQ} {stamp : LockStamp} (hd : s.calls[i]? = some d)
      (hp : d.phase = .updating lane now task tasks taskList stamp)
      (hlost : ∀ r ∈ s.rows, r.id = task.id → r.lock ≠ task.lock) :
      Effect bulk s t { s.setPhase i (.carryOn lane now tasks taskList) with
        lost := s.lost ++ [⟨i, task, s.rows⟩], time := t }

theorem step_effect {e : QueueEvent} (h : s.step bulk (e, t) = some s') : s.time ≤ t ∧ Effect bulk s t s' := by
  rw [step] at h
  split at h
  · cases h
  · rename_i htime
    refine ⟨Nat.le_of_not_lt htime, ?_⟩
    obtain ⟨u, hu, rfl⟩ := Option.map_eq_some_iff.mp h
    cases e with
    | enqueue key payload lock =>
      cases hu
      exact .enqueued key payload lock
    | delete ids =>
      rw [act] at hu
      split at hu
      · rename_i hall
        cases hu
        refine .deleted ids ?_
        intro id hid
        have hany := List.all_eq_true.mp hall id hid
        obtain ⟨r, hr, he⟩ := List.any_eq_true.mp hany
        exact ⟨r, hr, of_decide_eq_true he⟩
      · cases hu
    | dequeue listKey =>
      cases hu
      exact .called listKey
    | readClock i value =>
      obtain ⟨d, hd, hu⟩ := Option.bind_eq_some_iff.mp hu
      split at hu
      · rename_i lane hp
        cases hu
        exact .read value hd hp
      · cases hu
    | query i answer =>
      obtain ⟨d, hd, hu⟩ := Option.bind_eq_some_iff.mp hu
      split at hu
      · rename_i lane now hp
        split at hu
        · rename_i hans
          cases hu
          refine .queried hd hp ?_ hans
          intro r hr
          rw [answers, Bool.and_eq_true, Bool.and_eq_true] at hans
          have hsel := List.all_eq_true.mp hans.1.2 r hr
          simp only [Bool.and_eq_true, decide_eq_true_eq] at hsel
          exact hsel
        · cases hu
      · cases hu
    | timeout i lock period =>
      obtain ⟨d, hd, hu⟩ := Option.bind_eq_some_iff.mp hu
      split at hu
      · rename_i lane now task tasks taskList hp
        cases hu
        exact .stamped lock period hd hp
      · cases hu
    | update i =>
      obtain ⟨d, hd, hu⟩ := Option.bind_eq_some_iff.mp hu
      split at hu
      · rename_i lane now task tasks taskList stamp hp
        split at hu
        · rename_i hany
          cases hu
          obtain ⟨row, hrow, hsel⟩ := List.any_eq_true.mp hany
          rw [Bool.and_eq_true, decide_eq_true_eq, decide_eq_true_eq] at hsel
          exact .leased hd hp hrow hsel.1 hsel.2
        · rename_i hany
          cases hu
          refine .missed hd hp ?_
          intro r hr hid hlock
          exact hany (List.any_eq_true.mpr ⟨r, hr, by simp [hid, hlock]⟩)
      · cases hu

theorem setPhase_calls {i j : Nat} {phase : ScanPhase} {d' : DequeueCall}
    (h : (s.setPhase i phase).calls[j]? = some d') :
    (j = i ∧ ∃ d, s.calls[i]? = some d ∧ d' = { d with phase }) ∨ (j ≠ i ∧ s.calls[j]? = some d') := by
  rw [setPhase, List.getElem?_modify] at h
  obtain ⟨d, hd, rfl⟩ := Option.map_eq_some_iff.mp h
  by_cases hij : i = j
  · exact .inl ⟨hij.symm, d, hij ▸ hd, if_pos hij⟩
  · refine .inr ⟨Ne.symm hij, ?_⟩
    rw [if_neg hij]
    exact hd

theorem setPhase_length (s : OrmQueue) (i : Nat) (phase : ScanPhase) :
    (s.setPhase i phase).calls.length = s.calls.length := List.length_modify ..

end OrmQueue
end Qraft
