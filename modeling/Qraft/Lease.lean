import Qraft.Models.Tasks

/-! The execution lease: the conditional writes a worker makes on the attempt behind
the message it was delivered. -/
namespace Qraft

inductive Verdict where
  /-- `FIRST_DELIVERY` -/
  | first
  /-- `REPEAT_DELIVERY` -/
  | repeated
  /-- `REFUSED_DELIVERY` -/
  | refused
  /-- `NO_ATTEMPT` -/
  | unowned
  deriving DecidableEq, Repr

/-- The verdicts that let a delivery run. -/
def Verdict.Admits (v : Verdict) : Prop := v = .first ∨ v = .repeated

instance (v : Verdict) : Decidable v.Admits := inferInstanceAs (Decidable (_ ∨ _))

/-- The updates a worker makes by q2 task id. -/
inductive LeaseWrite where
  /-- The first compare-and-swap of `_claim`. -/
  | start
  /-- The second. -/
  | again
  /-- `touch`. -/
  | touch
  /-- `close_lease`. -/
  | returned
  deriving DecidableEq, Repr

namespace LeaseWrite

/-- The filter of the update, beside the q2 task id. -/
def selects (limit : Nat) : LeaseWrite → QraftTaskAttempt → Bool
  | start, a => a.dateStarted = none && a.success = none && a.executionCount < limit
  | again, a => a.success = none && a.executionCount < limit
  | touch, a => a.success = none
  | returned, a => a.success = none

def write (now : Time) : LeaseWrite → QraftTaskAttempt → QraftTaskAttempt
  | start, a =>
    { a with
      dateStarted := some now, heartbeatAt := some now, executionCount := a.executionCount + 1 }
  | again, a => { a with heartbeatAt := some now, executionCount := a.executionCount + 1 }
  | touch, a => { a with heartbeatAt := some now }
  | returned, a => { a with returnedAt := some now }

end LeaseWrite

/-- The attempts of one task that an update by q2 task id matches, rewritten. -/
def QraftTask.updateMessage (t : QraftTask) (q2TaskId : Q2TaskId) (p : QraftTaskAttempt → Bool)
    (f : QraftTaskAttempt → QraftTaskAttempt) : QraftTask :=
  { t with attempts := Rows.updateWhere (fun a => a.q2TaskId = some q2TaskId && p a) f t.attempts }

namespace TaskStore

/-- Rows an update by q2 task id would match. -/
def matchesMessage (st : TaskStore) (q2TaskId : Q2TaskId) (p : QraftTaskAttempt → Bool) : Bool :=
  st.tasks.any fun t => t.attempts.any fun a => a.q2TaskId = some q2TaskId && p a

/-- `QraftTaskAttempt.objects.filter(q2_task_id=q, ...).update(...)`. -/
def updateMessage (st : TaskStore) (q2TaskId : Q2TaskId) (p : QraftTaskAttempt → Bool)
    (f : QraftTaskAttempt → QraftTaskAttempt) : TaskStore :=
  { st with tasks := st.tasks.map fun t => t.updateMessage q2TaskId p f }

/-- One lease write: the rows after it, and whether it matched one. -/
def lease (st : TaskStore) (limit : Nat) (q2TaskId : Q2TaskId) (w : LeaseWrite) (now : Time) :
    TaskStore × Bool :=
  (st.updateMessage q2TaskId (w.selects limit) (w.write now),
    st.matchesMessage q2TaskId (w.selects limit))

end TaskStore
end Qraft
