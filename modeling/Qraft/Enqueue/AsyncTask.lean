import Qraft.Models.Graphs
import Qraft.Models.Workflows

/-! `async_task`: what a call makes of its options before it writes a row. -/
namespace Qraft

structure MemberLabels where
  graphId : Option GraphId := none
  node : Option String := none
  subjectType : Option String := none
  subjectId : Option String := none
  deriving DecidableEq

/-- The keys of `qraft_options` that `async_task` reads. -/
structure AsyncOptions where
  successHook : Option String := none
  successArgs : List Json := []
  successKwargs : JsonDict := []
  failureHook : Option String := none
  failureArgs : List Json := []
  failureKwargs : JsonDict := []
  retry : Option RetryOptions := none
  idempotencyKey : Option String := none
  idempotencyRetryDead : Bool := false
  priority : String := "default"
  subject : Option (String × String) := none
  graph : Option GraphId := none
  node : Option String := none
  stallAfter : Option Nat := none
  hookContext : Bool := false
  cluster : Option String := none

/-- The arguments of `async_task`, past the options it refuses outright. -/
structure AsyncCall where
  func : String
  args : List Json := []
  kwargs : JsonDict := []
  hook : Option String := none
  cluster : Option String := none
  /-- Whether the caller names a broker. -/
  broker : Bool := false
  options : AsyncOptions := {}

/-- Python's truth value of an optional string. -/
def truthy (s : Option String) : Bool := s.any fun x => x ≠ ""

/-- How an f-string shows an optional string. -/
def pyShow (s : Option String) : String := s.getD "None"

/-- `parse_subject`, of a pair or nothing. -/
def parseSubject : Option (String × String) → Except QraftError (Option String × Option String)
  | none => .ok (none, none)
  | some (subjectType, subjectId) =>
    if subjectType = "" then
      .error (.valueError ("subject must name both a type and an id, got " ++
        s!"({pyRepr subjectType}, {pyRepr subjectId})"))
    else .ok (some subjectType, some subjectId)

theorem parseSubject_eq_ok {subject : Option (String × String)} {r : Option String × Option String}
    (h : parseSubject subject = .ok r) :
    r = (none, none) ∨ ∃ subjectType subjectId, subjectType ≠ "" ∧
      r = (some subjectType, some subjectId) := by
  cases subject with
  | none =>
    cases h
    exact .inl rfl
  | some pair =>
    simp only [parseSubject] at h
    split at h
    · cases h
    · rename_i hne
      cases h
      exact .inr ⟨_, _, hne, rfl⟩

structure GraphRows where
  graph : QraftGraph
  nodes : List QraftGraphNode := []

/-- `member_labels`, on what it reads of the graph. -/
def memberLabels (graph? : GraphId → Option GraphRows) (graphId : Option GraphId)
    (node subjectType subjectId : Option String) : Except QraftError MemberLabels :=
  match graphId with
  | none =>
    if truthy node then
      let name := pyRepr (node.getD "")
      .error (.graphError s!"node {name} was given without a graph")
    else .ok { subjectType, subjectId }
  | some id =>
    match graph? id with
    | none => .error (.graphError s!"unknown graph {id}")
    | some g =>
      if g.graph.status ≠ .running then
        .error (.graphError (s!"graph {id} is {g.graph.status}; a settled graph is never reopened. " ++
          "Start a new graph with previous_graph pointing at this one."))
      else if truthy node ∧ g.nodes.all (fun n => some n.key ≠ node) then
        let name := pyRepr (node.getD "")
        .error (.graphError s!"graph {id} declared no node named {name}")
      else if subjectType = none ∧ subjectId = none then
        .ok { graphId, node, subjectType := g.graph.subjectType, subjectId := g.graph.subjectId }
      else if (subjectType, subjectId) ≠ (g.graph.subjectType, g.graph.subjectId) then
        .error (.graphError (s!"subject ({pyShow subjectType}, {pyShow subjectId}) differs from graph " ++
          s!"{id}'s ({pyShow g.graph.subjectType}, {pyShow g.graph.subjectId}); " ++
          "a graph implies its subject"))
      else .ok { graphId, node, subjectType, subjectId }

def taskPriorities : List String := ["high", "default", "low"]

namespace AsyncCall

/-- The legacy `hook` is the success hook of a call that names no other. -/
def successHook (c : AsyncCall) : Option String :=
  if truthy c.hook ∧ ¬ (truthy c.options.successHook ∨ truthy c.options.failureHook) then c.hook
  else c.options.successHook

def clusterOption (c : AsyncCall) : Except QraftError (Option String) :=
  match c.cluster, c.options.cluster with
  | some a, some b =>
    if a ≠ b then
      .error (.valueError (s!"async_task(cluster={pyRepr a}) conflicts with " ++
        s!"qraft_options['cluster']={pyRepr b}"))
    else .ok (some a)
  | some a, none => .ok (some a)
  | none, b => .ok b

/-- `async_task` from the priority check to the insert: the row's columns, and the cluster. -/
def metadata (c : AsyncCall) (defaults : RetryDefaults) (graph? : GraphId → Option GraphRows) :
    Except QraftError (QraftTask × Option String) := do
  if c.options.priority ∉ taskPriorities then
    .error (.valueError (s!"Invalid priority {pyRepr c.options.priority}; must be one of " ++
      pyReprList taskPriorities))
  let retryPolicy ← RetryPolicy.fromOptions defaults c.options.retry
  let (subjectType, subjectId) ← parseSubject c.options.subject
  let labels ← memberLabels graph? c.options.graph c.options.node subjectType subjectId
  let cluster ← c.clusterOption
  if c.broker ∧ cluster = none then
    .error (.valueError ("async_task(broker=...) must also name the cluster that broker targets, so " ++
      "retries of this task reach the same cluster. Pass cluster='<name>' (or " ++
      "qraft_options=\x7b'cluster': '<name>'\x7d), or drop broker= and let Qraft resolve it from the " ++
      "cluster."))
  return ({
    id := 0
    status := .running
    func := c.func
    taskArgs := c.args
    taskKwargs := c.kwargs
    successHook := c.successHook
    successArgs := c.options.successArgs
    successKwargs := c.options.successKwargs
    failureHook := c.options.failureHook
    failureArgs := c.options.failureArgs
    failureKwargs := c.options.failureKwargs
    hookContext := c.options.hookContext
    retryPolicy
    stallAfter := c.options.stallAfter
    idempotencyKey := c.options.idempotencyKey
    priority := c.options.priority
    subjectType := labels.subjectType
    subjectId := labels.subjectId
    graphId := labels.graphId
    node := labels.node
    dateUpdated := 0 }, cluster)

end AsyncCall

namespace TaskStore

/-- `filter(idempotency_key=key).first()`. -/
def keyHolder? (st : TaskStore) (key : String) : Option QraftTask :=
  st.tasks.find? fun t => t.idempotencyKey = some key

def reclaimDeadTaskKey (st : TaskStore) (key : String) : TaskStore :=
  { st with
    tasks := Rows.updateWhere (fun t => t.idempotencyKey = some key && decide t.status.Dead)
      (fun t => { t with idempotencyKey := none }) st.tasks }

/-- The second query of `_existing_task_for_key`: the newest message of the holder. -/
def holderMessage (st : TaskStore) (holder : TaskId) : Option Q2TaskId :=
  (st.task? holder).bind fun t =>
    ((t.attempts.filter fun a => a.q2TaskId.isSome).argmax fun a => a.attemptNumber).bind fun a =>
      a.q2TaskId

end TaskStore
end Qraft
