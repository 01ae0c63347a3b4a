import Qraft.Models.Tasks

/-! Graph, node and settlement rows. -/
namespace Qraft

/-- RUNNING and WAITING_APPROVAL are live; the other three are terminal. -/
inductive GraphStatus where
  | running
  | succeeded
  | failed
  | cancelled
  | waitingApproval
  deriving DecidableEq, Repr

/-- `TERMINAL_GRAPH_STATUSES`. -/
def GraphStatus.Terminal (s : GraphStatus) : Prop := s = .succeeded ∨ s = .failed ∨ s = .cancelled

instance (s : GraphStatus) : Decidable s.Terminal := inferInstanceAs (Decidable (_ ∨ _ ∨ _))

def GraphStatus.value : GraphStatus → String
  | .running => "running"
  | .succeeded => "succeeded"
  | .failed => "failed"
  | .cancelled => "cancelled"
  | .waitingApproval => "waiting_approval"

instance : ToString GraphStatus := ⟨GraphStatus.value⟩

/-- Where a node sits relative to its current generation's task. -/
inductive NodeStatus where
  | pending
  | running
  | succeeded
  | failed
  | cancelled
  | skipped
  | waitingApproval
  deriving DecidableEq, Repr

/-- The two statuses that satisfy a dependency. -/
def NodeStatus.Met (s : NodeStatus) : Prop := s = .succeeded ∨ s = .skipped

instance (s : NodeStatus) : Decidable s.Met := inferInstanceAs (Decidable (_ ∨ _))

def NodeStatus.value : NodeStatus → String
  | .pending => "pending"
  | .running => "running"
  | .succeeded => "succeeded"
  | .failed => "failed"
  | .cancelled => "cancelled"
  | .skipped => "skipped"
  | .waitingApproval => "waiting_approval"

instance : ToString NodeStatus := ⟨NodeStatus.value⟩

/-- How a node's completion may be trusted on resume. -/
inductive RecoveryMode where
  | transactional
  | idempotent
  | manual
  deriving DecidableEq, Repr

/-- `qraft_options` of a node, restricted to `_NODE_OPTION_KEYS`. -/
structure NodeOptions where
  retry : Option RetryOptions := none
  cluster : Option String := none
  priority : String := "default"
  stallAfter : Option Nat := none
  successHook : Option String := none
  successArgs : List Json := []
  successKwargs : JsonDict := []
  failureHook : Option String := none
  failureArgs : List Json := []
  failureKwargs : JsonDict := []
  hookContext : Bool := false

/-- One node as `Graph.node()` records it. -/
structure NodeSpec where
  key : String
  func : String
  taskArgs : List Json := []
  taskKwargs : JsonDict := []
  after : List String := []
  recovery : RecoveryMode
  requiresApproval : Bool := false
  options : NodeOptions := {}

structure QraftGraph where
  id : GraphId
  subjectType : Option String := none
  subjectId : Option String := none
  kind : Option String := none
  revision : Option String := none
  metadata : Option Json := none
  previousGraphId : Option GraphId := none
  status : GraphStatus := .running
  generation : Nat := 1
  cluster : Option String := none
  dateStarted : Time
  settledAt : Option Time := none
  resumedAt : Option Time := none
  overdueFlaggedAt : Option Time := none
  onSettled : Option String := none
  onSettledKwargs : JsonDict := []
  /-- What is left under each budget key. -/
  budgets : Option JsonDict := none
  dateUpdated : Time

structure QraftGraphNode where
  key : String
  position : Nat
  depth : Nat
  after : List String
  func : String
  taskArgs : List Json
  taskKwargs : JsonDict
  options : NodeOptions
  recovery : RecoveryMode
  generation : Nat := 1
  requiresApproval : Bool
  receipt : Option JsonDict := none
  receiptAttemptId : Option AttemptId := none
  /-- The current generation's task. -/
  task : Option TaskId := none
  status : NodeStatus := .pending
  skipReason : Option String := none
  dispatchedAt : Option Time := none
  settledAt : Option Time := none

/-- What the settlement hook is told: `hook_context(graph)`. -/
structure HookContext where
  graphId : GraphId
  subjectType : Option String
  subjectId : Option String
  kind : Option String
  revision : Option String
  metadata : Option Json
  outcome : GraphStatus
  generation : Nat
  nodes : List (String × NodeStatus)
  startedAt : Time
  settledAt : Option Time
  durationS : Option Nat
  previousGraphId : Option GraphId

/-- `QraftGraphSettlement`, unique per graph and generation. -/
structure QraftGraphSettlement where
  graphId : GraphId
  generation : Nat
  hookPath : String
  hookKwargs : JsonDict
  context : HookContext
  dateCreated : Option Time

end Qraft
