import Mathlib.Data.List.Dedup
import Mathlib.Data.List.Sort
import Mathlib.Data.String.Basic
import Qraft.Foundations.Dict
import Qraft.Foundations.Digraph
import Qraft.Foundations.Transaction
import Qraft.Models.Graphs

/-! Plans: the checks `Graph.start` makes before it writes a row. -/
namespace Qraft

inductive BudgetValue where
  /-- An `int` that is no `bool`. -/
  | count (n : ℤ)
  /-- Anything else, with its `repr`. -/
  | other (repr : String)
  deriving DecidableEq

/-- `{value!r}`. -/
def BudgetValue.repr : BudgetValue → String
  | .count n => toString n
  | .other repr => repr

/-- What the in-memory builder holds when `start()` is called. -/
structure GraphPlan where
  subjectType : Option String := none
  subjectId : Option String := none
  kind : Option String := none
  revision : Option String := none
  metadata : Option Json := none
  startedAt : Option Time := none
  onSettled : Option String := none
  onSettledKwargs : JsonDict := []
  previousGraphId : Option GraphId := none
  cluster : Option String := none
  /-- Under `str(key)`. Empty when none are given. -/
  budgets : List (String × BudgetValue) := []
  nodes : List NodeSpec

namespace GraphPlan

def keys (nodes : List NodeSpec) : List String := nodes.map fun n => n.key

/-- `edges.get(key, [])` of the dictionary the cycle check builds. -/
def edges (nodes : List NodeSpec) (key : String) : List String :=
  (nodes.find? fun n => n.key = key).elim [] fun n => n.after

/-- `_has_cycle`. The stack never outgrows the node list. -/
def hasCycle (nodes : List NodeSpec) : Bool :=
  Digraph.hasCycle (edges nodes) (nodes.length + 1) (keys nodes)

/-- One node's turn in the loop of `_validate_topology`. -/
def checkDependencies (nodes : List NodeSpec) (node : NodeSpec) : Except QraftError Unit :=
  if node.key ∈ node.after then
    .error (.graphError s!"node {pyRepr node.key} cannot depend on itself")
  else
    let unknown := (node.after.filter fun d => d ∉ keys nodes).dedup.insertionSort (· ≤ ·)
    if unknown ≠ [] then
      .error (.graphError s!"node {pyRepr node.key} depends on unknown key(s): {pyReprList unknown}")
    else .ok ()

def validateTopology (nodes : List NodeSpec) : Except QraftError Unit := do
  forM nodes (checkDependencies nodes)
  if hasCycle nodes then .error (.graphError "graph topology contains a cycle") else .ok ()

/-- `_compute_depths`, for one key: the longest path from a root. -/
def depthOf (nodes : List NodeSpec) : Nat → String → Nat
  | 0, _ => 0
  | fuel + 1, key =>
    match edges nodes key with
    | [] => 0
    | after => 1 + (after.map (depthOf nodes fuel)).foldl max 0

def budgetRefused (key : String) (value : BudgetValue) : QraftError :=
  .graphError (s!"budget {pyRepr key} must be a non-negative whole number of " ++
    s!"requests, got {value.repr}")

/-- One budget's turn in `_validated_budgets`. -/
def checkBudget (checked : JsonDict) (entry : String × BudgetValue) : Except QraftError JsonDict :=
  match entry.2 with
  | .count n =>
    if n < 0 then .error (budgetRefused entry.1 entry.2)
    else .ok (Dict.set checked entry.1 (.num n))
  | .other _ => .error (budgetRefused entry.1 entry.2)

def validatedBudgets (budgets : List (String × BudgetValue)) : Except QraftError (Option JsonDict) :=
  if budgets = [] then .ok none else some <$> budgets.foldlM checkBudget []

/-- The refusals of `start()` that precede its transaction. -/
def check (plan : GraphPlan) : Except QraftError Unit :=
  if plan.nodes = [] then .error (.graphError "a graph must declare at least one node")
  else if ¬ (keys plan.nodes).Nodup then
    .error (.graphError s!"node keys must be unique within a graph, got {pyReprList (keys plan.nodes)}")
  else do
    validateTopology plan.nodes
    let _ ← validatedBudgets plan.budgets
    return ()

def nodeRow (nodes : List NodeSpec) (position : Nat) (spec : NodeSpec) : QraftGraphNode where
  key := spec.key
  position := position
  depth := depthOf nodes nodes.length spec.key
  after := spec.after
  func := spec.func
  taskArgs := spec.taskArgs
  taskKwargs := spec.taskKwargs
  options := spec.options
  recovery := spec.recovery
  requiresApproval := spec.requiresApproval

theorem edges_of_mem {nodes : List NodeSpec} (hn : (keys nodes).Nodup) {n : NodeSpec}
    (h : n ∈ nodes) : edges nodes n.key = n.after := by
  have hg := @Rows.get?_of_mem _ _ _ (fun n : NodeSpec => n.key) _ hn _ h
  rw [Rows.get?] at hg
  rw [edges, hg]
  rfl

theorem checkDependencies_eq_ok {nodes : List NodeSpec} {n : NodeSpec}
    (h : checkDependencies nodes n = .ok ()) : n.key ∉ n.after ∧ ∀ d ∈ n.after, d ∈ keys nodes := by
  unfold checkDependencies at h
  split at h
  · cases h
  · rename_i hself
    refine ⟨hself, ?_⟩
    dsimp only at h
    split at h
    · cases h
    · rename_i hunknown
      intro d hd
      by_contra hk
      have hmem : d ∈ (n.after.filter fun d => d ∉ keys nodes).dedup.insertionSort (· ≤ ·) := by
        rw [List.mem_insertionSort, List.mem_dedup, List.mem_filter]
        exact ⟨hd, by simpa using hk⟩
      exact List.ne_nil_of_mem hmem (not_not.mp hunknown)

/-- A plan whose dependencies form a directed acyclic graph over its own distinct keys. -/
structure Accepted (nodes : List NodeSpec) : Prop where
  nonempty : nodes ≠ []
  nodup : (keys nodes).Nodup
  closed : ∀ n ∈ nodes, ∀ d ∈ n.after, d ∈ keys nodes
  order : ∃ l, Digraph.TopoSorted (edges nodes) l ∧ ∀ k ∈ keys nodes, k ∈ l

theorem accepted_of_check {plan : GraphPlan} (h : plan.check = .ok ()) : Accepted plan.nodes := by
  unfold check at h
  split at h
  · cases h
  · rename_i hne
    split at h
    · cases h
    · rename_i hnd
      obtain ⟨_, htopology, -⟩ := Transaction.bind_eq_ok.mp h
      obtain ⟨_, hdeps, hcycle⟩ := Transaction.bind_eq_ok.mp htopology
      split at hcycle
      · cases hcycle
      · rename_i hc
        refine ⟨hne, not_not.mp hnd, ?_, ?_⟩
        · intro n hn
          exact (checkDependencies_eq_ok (Transaction.forM_eq_ok.mp hdeps n hn)).2
        · exact Digraph.exists_topoSorted_of_not_hasCycle (by simpa [hasCycle] using hc)

end GraphPlan
end Qraft
