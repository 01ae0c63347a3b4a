import Qraft.Lifecycle.Messages

/-! Worker contexts over the task table. The broker may deliver any message to any idle
context at any time; a delivery runs through the lease's receiver, the runner's guard and
the target, one atomic act after another. -/
namespace Qraft

/-- Who calls `claim_delivery` on behalf of a delivery. -/
inductive Caller where
  /-- The lease's `pre_execute` receiver. -/
  | preExecute
  /-- `runner.guard_delivery`, when the runner is called. -/
  | guardDelivery
  deriving DecidableEq, Repr

inductive Phase where
  /-- `claim_delivery` is about to read the context's claim, or to make the first swap. -/
  | claiming (caller : Caller)
  /-- The first swap matched no row. -/
  | repeating (caller : Caller)
  /-- The second matched none either. -/
  | lookingUp (caller : Caller)
  /-- The guard let it pass. -/
  | granted
  | running
  /-- The target is over, or was refused; the result is not handed on yet. -/
  | reporting (success : Bool) (exceptionClass : Option String) (retryAfter : Option ℚ)
  deriving DecidableEq

structure Delivery where
  id : Nat
  q2TaskId : Q2TaskId
  /-- Whether the attempt was decided when the delivery arrived; no function reads it. -/
  late : Bool
  deriving DecidableEq, Repr

structure Execution where
  delivery : Delivery
  phase : Phase
  deriving DecidableEq

/-- The context variables of a standard worker process, or of a thread. -/
structure WorkerContext where
  threaded : Bool
  /-- `_delivery_claim`. -/
  deliveryClaim : Option (Q2TaskId × Verdict) := none
  execution : Option Execution := none
  deriving DecidableEq

structure Grant where
  delivery : Delivery
  verdict : Verdict
  deriving DecidableEq

/-- A result on its way to the monitor. -/
structure Report where
  delivery : Delivery
  result : Q2Task
  deriving DecidableEq

structure Workers where
  life : Lifecycle := {}
  contexts : List WorkerContext := []
  reports : List Report := []
  nextId : Nat := 0
  /-- Swaps of `_claim` that matched their row. This and what follows is read by no function. -/
  claims : List Grant := []
  /-- Verdicts `claim_delivery` returned. -/
  grants : List Grant := []
  /-- Calls of the target. -/
  calls : List Delivery := []
  /-- Every result ever handed on. -/
  reported : List Report := []

inductive WorkerEvent where
  /-- Anything but a worker's own writes. -/
  | life (e : LifecycleEvent)
  | spawn (threaded : Bool)
  /-- The broker delivers a message to an idle context. -/
  | receive (context : Nat) (q2TaskId : Q2TaskId)
  /-- The next act of a delivery before its target runs. -/
  | advance (context : Nat)
  /-- The target returned or raised, and `close_lease` has run. -/
  | finish (context : Nat) (success : Bool) (exceptionClass : Option String) (retryAfter : Option ℚ)
  /-- The result goes to the result queue. -/
  | report (context : Nat)
  /-- The monitor saves a result. -/
  | save (i : Nat)
  /-- The result is lost with the monitor. -/
  | lose (i : Nat)
  /-- The process dies, and another takes its place. -/
  | crash (context : Nat)

namespace Workers

/-- The events that are not a worker's writes on its own attempt. -/
def ambient : LifecycleEvent → Bool
  | .saveResult _ | .lease _ .start | .lease _ .again | .lease _ .returned => false
  | _ => true

def setContext (w : Workers) (c : Nat) (ctx : WorkerContext) : Workers :=
  { w with contexts := w.contexts.set c ctx }

def setStore (w : Workers) (store : TaskStore) : Workers := { w with life := { w.life with store } }

def Caller.next : Caller → Verdict → Phase
  | .preExecute, _ => .claiming .guardDelivery
  | .guardDelivery, .refused => .reporting false (some "RedeliveredAttempt") none
  | .guardDelivery, _ => .granted

/-- `claim_delivery` returns. -/
def settle (w : Workers) (c : Nat) (ctx : WorkerContext) (d : Delivery) (caller : Caller) (v : Verdict) :
    Workers :=
  { w.setContext c { ctx with execution := some ⟨d, Caller.next caller v⟩ } with
    grants := w.grants ++ [⟨d, v⟩] }

/-- One of the two swaps of `_claim`: it admits the delivery, or leads on to `otherwise`. -/
def swap (w : Workers) (limit : Nat) (now : Time) (c : Nat) (ctx : WorkerContext) (d : Delivery)
    (caller : Caller) (write : LeaseWrite) (v : Verdict) (otherwise : Phase) : Workers :=
  if w.life.store.matchesMessage d.q2TaskId (write.selects limit) then
    settle { w.setStore (w.life.store.lease limit d.q2TaskId write now).1 with
        claims := w.claims ++ [⟨d, v⟩] }
      c { ctx with deliveryClaim := some (d.q2TaskId, v) } d caller v
  else w.setContext c { ctx with execution := some ⟨d, otherwise⟩ }

/-- `claim_delivery`, act by act, and the call of the target. -/
def advance (w : Workers) (limit : Nat) (now : Time) (c : Nat) (ctx : WorkerContext) (d : Delivery) :
    Phase → Option Workers
  | .claiming caller =>
    match ctx.deliveryClaim with
    | some (q, v) =>
      if q = d.q2TaskId then some (w.settle c ctx d caller v)
      else some (w.swap limit now c ctx d caller .start .first (.repeating caller))
    | none => some (w.swap limit now c ctx d caller .start .first (.repeating caller))
  | .repeating caller => some (w.swap limit now c ctx d caller .again .repeated (.lookingUp caller))
  | .lookingUp caller =>
    if w.life.store.matchesMessage d.q2TaskId fun _ => true then
      some (w.settle c { ctx with deliveryClaim := some (d.q2TaskId, .refused) } d caller .refused)
    -- `NO_ATTEMPT` is not remembered.
    else some (w.settle c ctx d caller .unowned)
  | .granted =>
    some { w.setContext c { ctx with execution := some ⟨d, .running⟩ } with calls := w.calls ++ [d] }
  | .running | .reporting .. => none

def step (limit : Nat) (w : Workers) (env : Env) : WorkerEvent → Option Workers
  | .life e => if ambient e then (w.life.step limit env e).map fun life => { w with life } else none
  | .spawn threaded => some { w with contexts := w.contexts ++ [{ threaded }] }
  | .receive c q2TaskId =>
    w.contexts[c]?.bind fun ctx =>
      if ctx.execution = none ∧ q2TaskId < w.life.store.nextId then
        let late := w.life.store.matchesMessage q2TaskId fun a => a.success ≠ none
        some { w.setContext c { ctx with
            execution := some ⟨⟨w.nextId, q2TaskId, late⟩, .claiming .preExecute⟩ } with
          nextId := w.nextId + 1 }
      else none
  | .advance c =>
    w.contexts[c]?.bind fun ctx => ctx.execution.bind fun ex =>
      w.advance limit env.now c ctx ex.delivery ex.phase
  | .finish c success exceptionClass retryAfter =>
    w.contexts[c]?.bind fun ctx => ctx.execution.bind fun ex =>
      if ex.phase = .running then
        some ((w.setStore (w.life.store.lease limit ex.delivery.q2TaskId .returned env.now).1).setContext
          c { ctx with execution := some ⟨ex.delivery, .reporting success exceptionClass retryAfter⟩ })
      else none
  | .report c =>
    w.contexts[c]?.bind fun ctx => ctx.execution.bind fun ex =>
      match ex.phase with
      | .reporting success exceptionClass retryAfter =>
        let report : Report := ⟨ex.delivery,
          { id := ex.delivery.q2TaskId, success, exceptionClass, retryAfter, stopped := env.now }⟩
        -- Only the threaded worker clears the context behind a task.
        let deliveryClaim := if ctx.threaded then none else ctx.deliveryClaim
        some { w.setContext c { ctx with deliveryClaim, execution := none } with
          reports := w.reports ++ [report], reported := w.reported ++ [report] }
      | _ => none
  | .save i =>
    w.reports[i]?.bind fun r => (w.life.step limit env (.saveResult r.result)).map fun life =>
      { w with life, reports := w.reports.eraseIdx i }
  | .lose i => some { w with reports := w.reports.eraseIdx i }
  | .crash c =>
    w.contexts[c]?.map fun ctx => w.setContext c { threaded := ctx.threaded }

end Workers

/-- Any interleaving of deliveries, executions and the task table's own events. -/
def workerSystem (limit : Nat) : StepSystem Workers (WorkerEvent × Env) where
  init w := w = {}
  step w e := w.step limit e.2 e.1

end Qraft
