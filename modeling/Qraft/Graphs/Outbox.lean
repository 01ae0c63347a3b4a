import Qraft.Foundations.ClaimOnce
import Qraft.Graphs.Settlement

/-! The settlement outbox: graphs, hook dispatch rows and the queue, with the calls and
sweeps that run beside the graphs' own transactions. The broker is the ORM's, so that a
dispatch row and its queue row commit together. -/
namespace Qraft

/-- A `WorkflowHookDispatch` row of workflow type "graph" and hook type "settled",
unique per graph and generation. -/
structure WorkflowHookDispatch where
  id : Nat
  workflowId : GraphId
  generation : Nat
  hookPath : String
  q2TaskId : Q2TaskId
  dateCreated : Time

def WorkflowHookDispatch.key (d : WorkflowHookDispatch) : GraphId × Nat := (d.workflowId, d.generation)

def QraftGraphSettlement.key (r : QraftGraphSettlement) : GraphId × Nat := (r.graphId, r.generation)

structure HookMessage where
  q2TaskId : Q2TaskId
  graphId : GraphId
  generation : Nat
  hookPath : String
  hookKwargs : JsonDict
  context : HookContext

def HookMessage.key (m : HookMessage) : GraphId × Nat := (m.graphId, m.generation)

structure Outbox where
  graphs : List GraphState := []
  dispatches : List WorkflowHookDispatch := []
  /-- Every hook ever queued. -/
  queue : List HookMessage := []
  /-- Calls of `_dispatch_settled_hook` that follow a commit and were not made yet. -/
  calls : List QraftGraph := []
  /-- Settlement rows read by such a call or by a replay, and not offered yet. -/
  held : List QraftGraphSettlement := []
  /-- Graphs that retention deleted; no function reads them. -/
  deleted : List GraphState := []
  nextId : Nat := 0

namespace Outbox

def graph? (w : Outbox) (id : GraphId) : Option GraphState :=
  Rows.get? (fun s : GraphState => s.graph.id) w.graphs id

def saveGraph (w : Outbox) (id : GraphId) (s : GraphState) : Outbox :=
  { w with graphs := Rows.updateWhere (fun t => t.graph.id = id) (fun _ => s) w.graphs }

def dispatched (w : Outbox) (r : QraftGraphSettlement) : Bool :=
  w.dispatches.any fun d => d.key = r.key

/-- `dispatch_hook_once` for a settlement: claim the key and queue the hook, or find it claimed. -/
def dispatchHookOnce (w : Outbox) (r : QraftGraphSettlement) (now : Time) : Outbox :=
  if w.dispatched r then w
  else
    { w with
      dispatches := w.dispatches ++ [{
        id := w.nextId
        workflowId := r.graphId
        generation := r.generation
        hookPath := r.hookPath
        q2TaskId := w.nextId + 1
        dateCreated := now }]
      queue := w.queue ++ [{
        q2TaskId := w.nextId + 1
        graphId := r.graphId
        generation := r.generation
        hookPath := r.hookPath
        hookKwargs := r.hookKwargs
        context := r.context }]
      nextId := w.nextId + 2 }

/-- The row `_dispatch_settled_hook` reads for a graph instance. -/
def settlementOf (w : Outbox) (g : QraftGraph) : Option QraftGraphSettlement :=
  (GraphState.hookPath g).bind fun _ => (w.graph? g.id).bind fun s =>
    s.settlements.find? fun r => r.generation = g.generation

/-- The rows `replay_settled_hooks` offers again. -/
def pendingSettlements (w : Outbox) (cutoff : Time) : List QraftGraphSettlement :=
  w.graphs.flatMap fun s => s.settlements.filter fun r =>
    (r.dateCreated.any fun d => d < cutoff) && !w.dispatched r

/-- The filter of the graph pass of `sweep_retention`. -/
def sweepable (w : Outbox) (cutoff : Time) (s : GraphState) : Bool :=
  decide s.graph.status.Terminal && s.graph.dateUpdated < cutoff &&
    s.store.tasks.all (fun t => t.status ≠ .pending && t.status ≠ .running) &&
    s.settlements.all w.dispatched

/-- The filter of its last pass: an old dispatch row whose graph is gone. -/
def prunable (w : Outbox) (cutoff : Time) (d : WorkflowHookDispatch) : Bool :=
  d.dateCreated < cutoff && (w.graph? d.workflowId).isNone

def sweepGraphs (w : Outbox) (ids : List GraphId) (cutoff : Time) : Outbox :=
  let gone := fun s : GraphState => decide (s.graph.id ∈ ids) && w.sweepable cutoff s
  { w with
    graphs := w.graphs.filter fun s => !gone s
    deleted := w.deleted ++ w.graphs.filter gone }

def sweepDispatches (w : Outbox) (ids : List Nat) (cutoff : Time) : Outbox :=
  { w with dispatches := w.dispatches.filter fun d => !(decide (d.id ∈ ids) && w.prunable cutoff d) }

/-- Member tasks as other code leaves them. A node whose task was deleted loses it. -/
def setTasks (s : GraphState) (tasks : List QraftTask) : GraphState :=
  { s with
    store := { s.store with tasks }
    nodes := s.nodes.map fun n =>
      { n with task := n.task.filter fun id => tasks.any fun t => t.id = id } }

end Outbox

/-- One atomic step beside or on the graphs. -/
inductive OutboxEvent where
  | start (plan : GraphPlan)
  | call (id : GraphId) (event : GraphEvent)
  /-- Workers, dispatchers and retention's task pass rewrite the member tasks of a graph. -/
  | tasks (id : GraphId) (rows : List QraftTask)
  /-- The call at an index reads its settlement row. -/
  | announce (i : Nat)
  /-- The process dies before it makes the call. -/
  | loseCall (i : Nat)
  /-- The upgrade bridge of `replay_settled_hooks` on one graph. -/
  | bridge (id : GraphId)
  /-- `replay_settled_hooks` reads what is due. -/
  | replay (cutoff : Time)
  /-- The held row at an index is offered to `dispatch_hook_once`. -/
  | offer (i : Nat)
  /-- Its holder dies, or queueing raises and the claim rolls back. -/
  | drop (i : Nat)
  | sweepGraphs (ids : List GraphId) (cutoff : Time)
  | sweepDispatches (ids : List Nat) (cutoff : Time)

namespace Outbox

def step (conf : RetryDefaults) (w : Outbox) (now : Time) : OutboxEvent → Option Outbox
  | .start plan =>
    (GraphState.start conf plan w.nextId now).toOption.map fun s =>
      { w with graphs := w.graphs ++ [s], nextId := w.nextId + 1 }
  | .call id event =>
    (w.graph? id).bind fun s => (s.call conf now event).toOption.map fun r =>
      { w.saveGraph id r.1 with calls := w.calls ++ r.2.toList }
  | .tasks id rows => (w.graph? id).map fun s => w.saveGraph id (setTasks s rows)
  | .announce i =>
    w.calls[i]?.map fun g =>
      { w with calls := w.calls.eraseIdx i, held := w.held ++ (w.settlementOf g).toList }
  | .loseCall i => some { w with calls := w.calls.eraseIdx i }
  | .bridge id =>
    (w.graph? id).map fun s =>
      if s.graph.settledAt ≠ none then w.saveGraph id s.recordSettlement else w
  | .replay cutoff => some { w with held := w.held ++ w.pendingSettlements cutoff }
  | .offer i =>
    w.held[i]?.map fun r => { w.dispatchHookOnce r now with held := w.held.eraseIdx i }
  | .drop i => some { w with held := w.held.eraseIdx i }
  | .sweepGraphs ids cutoff => some (w.sweepGraphs ids cutoff)
  | .sweepDispatches ids cutoff => some (w.sweepDispatches ids cutoff)

end Outbox

/-- Any interleaving of the graphs' transactions, hook deliveries and retention batches. -/
def outboxSystem (conf : RetryDefaults) : StepSystem Outbox (OutboxEvent × Time) where
  init w := w = {}
  step w e := w.step conf e.2 e.1

end Qraft
