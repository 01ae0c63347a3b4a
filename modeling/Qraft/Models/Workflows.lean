import Qraft.Models.Tasks

/-! What chains, iters and batches share: statuses and their transitions, the settlement
compare-and-swap, hooks and labels. -/
namespace Qraft

inductive WorkflowStatus where
  | pending
  | running
  | waitingApproval
  | succeeded
  | failed
  | cancelled
  deriving DecidableEq, Repr

namespace WorkflowStatus

/-- `TERMINAL_WORKFLOW_STATUSES`. -/
def Terminal (s : WorkflowStatus) : Prop := s = .succeeded ∨ s = .failed ∨ s = .cancelled

/-- `_CANCELLABLE_STATUSES`. -/
def Cancellable (s : WorkflowStatus) : Prop := s = .pending ∨ s = .running ∨ s = .waitingApproval

instance (s : WorkflowStatus) : Decidable s.Terminal := inferInstanceAs (Decidable (_ ∨ _ ∨ _))
instance (s : WorkflowStatus) : Decidable s.Cancellable := inferInstanceAs (Decidable (_ ∨ _ ∨ _))

theorem cancellable_iff {s : WorkflowStatus} : s.Cancellable ↔ ¬ s.Terminal := by
  cases s <;> decide

def value : WorkflowStatus → String
  | .pending => "pending"
  | .running => "running"
  | .waitingApproval => "waiting_approval"
  | .succeeded => "succeeded"
  | .failed => "failed"
  | .cancelled => "cancelled"

def validTransitions : WorkflowStatus → List WorkflowStatus
  | .pending => [.running, .cancelled]
  | .running => [.waitingApproval, .succeeded, .failed, .cancelled]
  | .waitingApproval => [.running, .cancelled]
  | .failed => [.running]
  | .succeeded => []
  | .cancelled => []

end WorkflowStatus

structure WorkflowHook where
  path : String
  args : List Json := []
  kwargs : JsonDict := []

/-- The columns of `SubjectMixin`, `GraphMemberMixin`, `WorkflowHookMixin` and
`WorkflowStatusMixin`. -/
structure WorkflowRow where
  subjectType : Option String := none
  subjectId : Option String := none
  graphId : Option GraphId := none
  node : Option String := none
  successHook : Option WorkflowHook := none
  failureHook : Option WorkflowHook := none
  onCancelled : Option String := none
  hookContext : Bool := false
  status : WorkflowStatus := .pending
  settledAt : Option Time := none
  dateUpdated : Time := 0

namespace WorkflowRow

def transitionTo (w : WorkflowRow) (status : WorkflowStatus) : Except QraftError WorkflowRow :=
  if status ∈ w.status.validTransitions then .ok { w with status }
  else .error (.valueError s!"Cannot transition from {w.status.value} to {status.value}")

/-- `settle_workflow`: the one conditional update. -/
def settleWorkflow (w : WorkflowRow) (status : WorkflowStatus) (now : Time) : Option WorkflowRow :=
  if w.settledAt = none ∧ ¬ w.status.Terminal then
    some { w with status, settledAt := some now, dateUpdated := now }
  else none

/-- The update of `BaseWorkflow.cancel`. -/
def cancel (w : WorkflowRow) (now : Time) : Option WorkflowRow :=
  if w.status.Cancellable ∧ w.settledAt = none then
    some { w with status := .cancelled, settledAt := some now, dateUpdated := now }
  else none

/-- Settled, and so marked. -/
def Marked (w : WorkflowRow) : Prop := w.settledAt ≠ none ↔ w.status.Terminal

theorem transitionTo_ok {w w' : WorkflowRow} {s : WorkflowStatus} (h : w.transitionTo s = .ok w') :
    s ∈ w.status.validTransitions ∧ w' = { w with status := s } := by
  unfold transitionTo at h
  split at h
  · rename_i hs
    cases h
    exact ⟨hs, rfl⟩
  · cases h

theorem settleWorkflow_eq_some {w w' : WorkflowRow} {s : WorkflowStatus} {now : Time}
    (h : w.settleWorkflow s now = some w') : w.settledAt = none ∧ ¬ w.status.Terminal ∧
      w' = { w with status := s, settledAt := some now, dateUpdated := now } := by
  unfold settleWorkflow at h
  split at h
  · rename_i hs
    cases h
    exact ⟨hs.1, hs.2, rfl⟩
  · cases h

theorem cancel_eq_some {w w' : WorkflowRow} {now : Time} (h : w.cancel now = some w') :
    w.settledAt = none ∧ ¬ w.status.Terminal ∧
      w' = { w with status := .cancelled, settledAt := some now, dateUpdated := now } := by
  unfold cancel at h
  split at h
  · rename_i hs
    cases h
    exact ⟨hs.2, WorkflowStatus.cancellable_iff.mp hs.1, rfl⟩
  · cases h

/-- A marked workflow that is not terminal can be settled, and cancelled. -/
theorem Marked.open {w : WorkflowRow} (h : w.Marked) (ht : ¬ w.status.Terminal) (s : WorkflowStatus)
    (now : Time) : (w.settleWorkflow s now).isSome ∧ (w.cancel now).isSome := by
  have hnone : w.settledAt = none := by
    by_contra hs
    exact ht (h.mp hs)
  have hc := WorkflowStatus.cancellable_iff.mpr ht
  simp [settleWorkflow, cancel, hnone, ht, hc]

end WorkflowRow

/-- A chain, iter or batch: its row, or a handle's copy of it. -/
structure WorkflowEntry where
  workflow : Workflow
  row : WorkflowRow

/-- The member options `_create_workflow_task` reads. -/
structure MemberOptions where
  retry : Option RetryOptions := none
  cluster : Option String := none
  stallAfter : Option Nat := none

/-- The row `_create_workflow_task` hands to `_create_and_enqueue`; invalid retry options raise. -/
def WorkflowRow.member (w : WorkflowRow) (defaults : RetryDefaults) (func : String)
    (taskArgs : List Json) (taskKwargs : JsonDict) (options : MemberOptions)
    (workflow : Option Workflow) : Except QraftError QraftTask := do
  let retryPolicy ← RetryPolicy.fromOptions defaults options.retry
  return {
    id := 0
    status := .running
    func, taskArgs, taskKwargs, retryPolicy, workflow
    stallAfter := options.stallAfter
    subjectType := w.subjectType
    subjectId := w.subjectId
    graphId := w.graphId
    node := w.node
    dateUpdated := 0 }

inductive HookType where
  | success
  | failure
  | cancelled
  deriving DecidableEq, Repr

/-- A `WorkflowHookDispatch` row of one workflow, with generation 0. -/
structure WorkflowDispatch where
  hookType : HookType
  hookPath : String

/-- What `workflow_hook_context` tells a hook beside the workflow's id and type. -/
structure WorkflowContext where
  outcome : WorkflowStatus
  counters : List (String × Nat)

structure WorkflowMessage where
  hookType : HookType
  hook : WorkflowHook
  context : Option WorkflowContext
  /-- Which settlement it was sent for; no function reads it. -/
  settlement : Nat

/-- The dispatch rows of one workflow, and the hooks ever queued for it. -/
structure HookTable where
  dispatches : List WorkflowDispatch := []
  hooks : List WorkflowMessage := []

/-- `dispatch_hook_once`, for a hook that may not be configured and an enqueue that may raise. -/
def HookTable.dispatchOnce (tb : HookTable) (hookType : HookType) (hook : Option WorkflowHook)
    (context : Option WorkflowContext) (settlement : Nat) (raises : Bool) : HookTable :=
  match hook with
  | none => tb
  | some hook =>
    if tb.dispatches.any fun d => d.hookType = hookType then tb
    -- The claim is rolled back and the exception logged.
    else if raises then tb
    else {
      dispatches := tb.dispatches ++ [⟨hookType, hook.path⟩]
      hooks := tb.hooks ++ [⟨hookType, hook, context, settlement⟩] }

/-- The hook of each type that a workflow is configured with. -/
def WorkflowRow.hookOf (w : WorkflowRow) : HookType → Option WorkflowHook
  | .success => w.successHook
  | .failure => w.failureHook
  | .cancelled => w.onCancelled.map fun path => { path }

theorem WorkflowRow.hookOf_congr {w w' : WorkflowRow} (hs : w'.successHook = w.successHook)
    (hf : w'.failureHook = w.failureHook) (hc : w'.onCancelled = w.onCancelled) (ty : HookType) :
    w'.hookOf ty = w.hookOf ty := by
  cases ty with
  | success => exact hs
  | failure => exact hf
  | cancelled => exact congrArg (Option.map fun path => ({ path } : WorkflowHook)) hc

/-- A dispatch of the type claims its row and queues the hook. -/
def HookTable.admits (tb : HookTable) (hookType : HookType) (raises : Bool) : Bool :=
  !raises && tb.dispatches.all fun d => d.hookType ≠ hookType

/-- A hook is dispatched if it is configured and its row can be claimed. -/
theorem HookTable.dispatchOnce_eq (tb : HookTable) (ty : HookType) (hook : Option WorkflowHook)
    (context : Option WorkflowContext) (n : Nat) (raises : Bool) :
    (∃ h, hook = some h ∧ tb.admits ty raises = true ∧ tb.dispatchOnce ty hook context n raises =
      ⟨tb.dispatches ++ [⟨ty, h.path⟩], tb.hooks ++ [⟨ty, h, context, n⟩]⟩) ∨
    ((hook = none ∨ tb.admits ty raises = false) ∧ tb.dispatchOnce ty hook context n raises = tb) := by
  cases hook with
  | none => exact .inr ⟨.inl rfl, rfl⟩
  | some h =>
    by_cases hany : (tb.dispatches.any fun d => d.hookType = ty) = true
    · refine .inr ⟨.inr ?_, if_pos hany⟩
      obtain ⟨d, hd, he⟩ := List.any_eq_true.mp hany
      rw [admits, Bool.and_eq_false_iff, List.all_eq_false]
      exact .inr ⟨d, hd, by simpa using he⟩
    · cases raises with
      | true => exact .inr ⟨.inr rfl, (if_neg hany).trans (if_pos rfl)⟩
      | false =>
        refine .inl ⟨h, rfl, ?_, (if_neg hany).trans (if_neg Bool.false_ne_true)⟩
        rw [admits, Bool.not_false, Bool.true_and, List.all_eq_true]
        intro d hd
        exact decide_eq_true fun he => hany (List.any_eq_true.mpr ⟨d, hd, decide_eq_true he⟩)

/-- What a dispatch queues it has a row for, and no type gets a second one. -/
theorem HookTable.dispatchOnce_rows (tb : HookTable) (ty : HookType) (hook : Option WorkflowHook)
    (context : Option WorkflowContext) (n : Nat) (raises : Bool)
    (hu : (tb.dispatches.map fun d => d.hookType).Nodup) :
    ((tb.dispatchOnce ty hook context n raises).dispatches.map fun d => d.hookType).Nodup ∧
      (∀ d ∈ tb.dispatches, d ∈ (tb.dispatchOnce ty hook context n raises).dispatches) ∧
      ∀ m ∈ (tb.dispatchOnce ty hook context n raises).hooks, m ∈ tb.hooks ∨
        ∃ d ∈ (tb.dispatchOnce ty hook context n raises).dispatches, d.hookType = m.hookType := by
  obtain ⟨h, -, hadm, heq⟩ | ⟨-, heq⟩ := tb.dispatchOnce_eq ty hook context n raises
  · rw [heq]
    refine ⟨?_, fun d hd => List.mem_append_left _ hd, ?_⟩
    · have hfree := List.all_eq_true.mp (Bool.and_eq_true_iff.mp hadm).2
      rw [List.map_append, List.nodup_append]
      refine ⟨hu, List.nodup_singleton _, ?_⟩
      intro a ha b hb he
      obtain ⟨d, hd, rfl⟩ := List.mem_map.mp ha
      exact of_decide_eq_true (hfree d hd) (he.trans (List.mem_singleton.mp hb))
    · intro m hm
      rcases List.mem_append.mp hm with hm | hm
      · exact .inl hm
      · rw [List.mem_singleton.mp hm]
        exact .inr ⟨_, List.mem_append_right _ (List.mem_singleton.mpr rfl), rfl⟩
  · rw [heq]
    exact ⟨hu, fun _ hd => hd, fun _ hm => .inl hm⟩

end Qraft
