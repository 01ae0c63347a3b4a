import Qraft.Foundations.Dict
import Qraft.Models.Values

/-! The arguments a hook is called with: as configured, through Django-Q2's `async_task` and the
worker that runs the message. -/
namespace Qraft

/-- The opt keys of `django_q.tasks.async_task`. -/
def djangoQOptKeys : List String :=
  ["hook", "group", "save", "sync", "cached", "ack_failure", "iter_count", "iter_cached", "chain",
    "broker", "cluster", "timeout"]

/-- What `async_task` takes out of the keywords: its options, and never the function's. -/
def poppedKeys : List String := djangoQOptKeys ++ ["q_options", "task_name"]

/-- A hook path that resolves. `run_task` is a plain function. -/
structure HookTarget where
  path : String
  coroutine : Bool
  not_runner : coroutine = true → path ≠ runnerPath

structure HookArguments where
  args : List Json
  kwargs : JsonDict
  keys_nodup : (kwargs.map Prod.fst).Nodup

inductive KeywordValue where
  | json (j : Json)
  /-- `broker_for_cluster(cluster)`. -/
  | broker (cluster : String)

structure HookCall where
  path : String
  args : List Json
  kwargs : List (String × KeywordValue)

/-- A message of `async_task`: the call, and the options it is queued under. -/
structure QueuedHook where
  call : HookCall
  options : List (String × KeywordValue)

inductive HookSite where
  /-- `HookDispatcher._call_hook_async`. -/
  | task (hookType : String) (taskId : TaskId)
  /-- `_dispatch_workflow_hook`. -/
  | workflow

namespace HookSite

def options (cluster : String) : HookSite → List (String × KeywordValue)
  | .task hookType taskId =>
    [("task_name", .json (.str s!"hook:{hookType}:{taskId}")), ("hook", .json .null),
      ("cluster", .json (.str cluster)), ("broker", .broker cluster), ("ack_failure", .json (.bool true))]
  | .workflow =>
    [("hook", .json .null), ("cluster", .json (.str cluster)), ("broker", .broker cluster),
      ("ack_failure", .json (.bool true))]

/-- All keywords of the call, in the order the call has them. -/
def keywords (cluster : String) (site : HookSite) (kwargs : List (String × KeywordValue)) :
    List (String × KeywordValue) :=
  match site with
  | .task .. => kwargs ++ site.options cluster
  | .workflow => site.options cluster ++ kwargs

end HookSite

/-- `async_task(func, *args, **keywords)`. `none`: a `TypeError`, for a keyword given twice. -/
def q2AsyncTask (func : String) (args : List Json) (keywords : List (String × KeywordValue)) :
    Option QueuedHook :=
  if "func" ∈ keywords.map Prod.fst ∨ ¬ (keywords.map Prod.fst).Nodup then none
  else some {
    call := ⟨func, args, keywords.filter fun e => e.1 ∉ poppedKeys⟩
    options := keywords.filter fun e => e.1 ∈ poppedKeys }

def jsonKeywords (kwargs : JsonDict) : List (String × KeywordValue) :=
  kwargs.map fun e => (e.1, .json e.2)

/-- `_hook_kwargs`: the configured keywords, plus `context` when opted in. -/
def withContext (context : Option JsonDict) (kwargs : JsonDict) : JsonDict :=
  match context with
  | none => kwargs
  | some c => Dict.set kwargs "context" (.obj c)

def dispatchSpec (hook : HookTarget) (args : List Json) (kwargs : JsonDict) :
    String × List Json × JsonDict :=
  if hook.coroutine then (runnerPath, [.str hook.path, .arr args, .obj kwargs], [])
  else (hook.path, args, kwargs)

/-- The enqueue of a hook. `none` is logged by `dispatch_hook_once`, and the hook is lost. -/
def enqueueHook (cluster : String) (site : HookSite) (hook : HookTarget) (context : Option JsonDict)
    (a : HookArguments) : Option QueuedHook :=
  let (func, args, kwargs) := dispatchSpec hook a.args (withContext context a.kwargs)
  q2AsyncTask func args (site.keywords cluster (jsonKeywords kwargs))

/-- `call_target(func, *args, **kwargs)`: the call it makes. -/
def callTarget (path : String) (args : List Json) (kwargs : JsonDict) : Option HookCall :=
  if "func" ∈ kwargs.map Prod.fst then none else some ⟨path, args, jsonKeywords kwargs⟩

/-- `run_task(func_path, args, kwargs)`: the call of its target. -/
def runTask : List Json → Option HookCall
  | [.str path, .arr args, .obj kwargs] => callTarget path args kwargs
  | _ => none

/-- How the worker calls the hook when it runs a message. -/
def calledBy (hook : HookTarget) (call : HookCall) : Option HookCall :=
  if call.path = hook.path then some call
  else if call.path = runnerPath then runTask call.args
  else none

/-- The hook is queued under Qraft's own options and called with the configured arguments. -/
def DeliversExactly (cluster : String) (site : HookSite) (hook : HookTarget) (context : Option JsonDict)
    (a : HookArguments) : Prop :=
  ∃ m, enqueueHook cluster site hook context a = some m ∧ m.options = site.options cluster ∧
    calledBy hook m.call = some ⟨hook.path, a.args, jsonKeywords (withContext context a.kwargs)⟩

section
variable {cluster : String} {site : HookSite} {context : Option JsonDict}

theorem jsonKeywords_keys (kwargs : JsonDict) :
    (jsonKeywords kwargs).map Prod.fst = kwargs.map Prod.fst := by
  rw [jsonKeywords, List.map_map]
  rfl

private theorem mem_withContext (context : Option JsonDict) {key : String} (hkey : key ≠ "context")
    (kwargs : JsonDict) :
    key ∈ (withContext context kwargs).map Prod.fst ↔ key ∈ kwargs.map Prod.fst := by
  cases context with
  | none => exact Iff.rfl
  | some c =>
    rw [withContext, Dict.keys_set]
    split
    · exact Iff.rfl
    · rw [List.mem_append, List.mem_singleton]
      exact or_iff_left hkey

private theorem withContext_nodup (context : Option JsonDict) (a : HookArguments) :
    ((withContext context a.kwargs).map Prod.fst).Nodup := by
  cases context with
  | none => exact a.keys_nodup
  | some c => exact Dict.nodup_set a.keys_nodup _ _

private theorem options_popped : ∀ e ∈ site.options cluster, e.1 ∈ poppedKeys := by
  cases site <;> simp [HookSite.options, poppedKeys, djangoQOptKeys]

private theorem options_nodup : ((site.options cluster).map Prod.fst).Nodup := by
  cases site <;> simp [HookSite.options]

private theorem func_not_popped : "func" ∉ poppedKeys := by decide

private theorem context_not_popped : "context" ∉ poppedKeys := by decide

private theorem keywords_perm (kwargs : List (String × KeywordValue)) :
    (site.keywords cluster kwargs).Perm (site.options cluster ++ kwargs) := by
  cases site with
  | task hookType taskId => exact List.perm_append_comm
  | workflow => exact List.Perm.refl _

/-- The keywords that are left for the function. -/
private theorem keywords_kept (kwargs : List (String × KeywordValue)) :
    (site.keywords cluster kwargs).filter (fun e => e.1 ∉ poppedKeys) =
      kwargs.filter fun e => e.1 ∉ poppedKeys := by
  have hnone : (site.options cluster).filter (fun e => e.1 ∉ poppedKeys) = [] := by
    rw [List.filter_eq_nil_iff]
    intro e he hnot
    exact of_decide_eq_true hnot (options_popped e he)
  cases site with
  | task hookType taskId => rw [HookSite.keywords, List.filter_append, hnone, List.append_nil]
  | workflow => rw [HookSite.keywords, List.filter_append, hnone, List.nil_append]

/-- The options, where no keyword of the hook is one. -/
private theorem keywords_options {kwargs : List (String × KeywordValue)}
    (hkeys : ∀ e ∈ kwargs, e.1 ∉ poppedKeys) :
    (site.keywords cluster kwargs).filter (fun e => e.1 ∈ poppedKeys) = site.options cluster := by
  have hall : (site.options cluster).filter (fun e => e.1 ∈ poppedKeys) = site.options cluster := by
    rw [List.filter_eq_self]
    exact fun e he => decide_eq_true (options_popped e he)
  have hnone : kwargs.filter (fun e => e.1 ∈ poppedKeys) = [] := by
    rw [List.filter_eq_nil_iff]
    exact fun e he hin => hkeys e he (of_decide_eq_true hin)
  cases site with
  | task hookType taskId => rw [HookSite.keywords, List.filter_append, hall, hnone, List.nil_append]
  | workflow => rw [HookSite.keywords, List.filter_append, hall, hnone, List.append_nil]

/-- No keyword is given twice, where none of the hook's is an option. -/
private theorem keywords_nodup {kwargs : List (String × KeywordValue)} (hn : (kwargs.map Prod.fst).Nodup)
    (hkeys : ∀ e ∈ kwargs, e.1 ∉ poppedKeys) :
    ((site.keywords cluster kwargs).map Prod.fst).Nodup := by
  rw [((keywords_perm kwargs).map Prod.fst).nodup_iff, List.map_append, List.nodup_append]
  refine ⟨options_nodup, hn, ?_⟩
  intro key hkey key' hkey' he
  obtain ⟨e, hin, rfl⟩ := List.mem_map.mp hkey
  obtain ⟨e', hin', rfl⟩ := List.mem_map.mp hkey'
  exact hkeys e' hin' (he ▸ options_popped e hin)

private theorem func_mem_keywords (kwargs : List (String × KeywordValue)) :
    "func" ∈ (site.keywords cluster kwargs).map Prod.fst ↔ "func" ∈ kwargs.map Prod.fst := by
  rw [((keywords_perm kwargs).map Prod.fst).mem_iff, List.map_append, List.mem_append]
  refine or_iff_right fun hin => ?_
  obtain ⟨e, he, hfunc⟩ := List.mem_map.mp hin
  exact func_not_popped (hfunc ▸ options_popped e he)

/-- A coroutine hook rides inside `run_task`, which `async_task` does not look into. -/
private theorem delivers_coroutine {hook : HookTarget} (hc : hook.coroutine = true) (a : HookArguments) :
    DeliversExactly cluster site hook context a ↔ "func" ∉ (withContext context a.kwargs).map Prod.fst := by
  have hempty : ∀ e ∈ jsonKeywords [], e.1 ∉ poppedKeys := fun e he => absurd he List.not_mem_nil
  have hqueued : enqueueHook cluster site hook context a = some {
      call := ⟨runnerPath, [.str hook.path, .arr a.args, .obj (withContext context a.kwargs)], []⟩
      options := site.options cluster } := by
    unfold enqueueHook
    simp only [dispatchSpec, hc, if_true]
    rw [q2AsyncTask, if_neg, keywords_kept, keywords_options hempty]
    · rfl
    · rw [not_or, not_not, func_mem_keywords]
      exact ⟨List.not_mem_nil, keywords_nodup List.nodup_nil hempty⟩
  have hpath : ¬ runnerPath = hook.path := fun h => hook.not_runner hc h.symm
  have hcall : ∀ m, enqueueHook cluster site hook context a = some m → calledBy hook m.call =
      callTarget hook.path a.args (withContext context a.kwargs) := by
    intro m hm
    rw [hqueued] at hm
    cases hm
    rw [calledBy, if_neg hpath, if_pos rfl]
    rfl
  constructor
  · rintro ⟨m, hm, -, hcalled⟩ hfunc
    rw [hcall m hm, callTarget, if_pos hfunc] at hcalled
    cases hcalled
  · intro hfunc
    refine ⟨_, hqueued, rfl, ?_⟩
    rw [hcall _ hqueued, callTarget, if_neg hfunc]

private theorem delivers_plain {hook : HookTarget} (hc : hook.coroutine = false) (a : HookArguments) :
    DeliversExactly cluster site hook context a ↔
      "func" ∉ (withContext context a.kwargs).map Prod.fst ∧
        ∀ key ∈ (withContext context a.kwargs).map Prod.fst, key ∉ poppedKeys := by
  have hkeys := jsonKeywords_keys (withContext context a.kwargs)
  have hspec : enqueueHook cluster site hook context a = q2AsyncTask hook.path a.args
      (site.keywords cluster (jsonKeywords (withContext context a.kwargs))) := by
    unfold enqueueHook
    simp [dispatchSpec, hc]
  constructor
  · rintro ⟨m, hm, -, hcalled⟩
    rw [hspec, q2AsyncTask] at hm
    split at hm
    · cases hm
    · rename_i hok
      rw [not_or, func_mem_keywords, hkeys] at hok
      cases hm
      rw [calledBy, if_pos rfl, keywords_kept] at hcalled
      have hsame := congrArg HookCall.kwargs (Option.some.inj hcalled)
      refine ⟨hok.1, fun key hkey => ?_⟩
      rw [← hkeys] at hkey
      obtain ⟨e, he, rfl⟩ := List.mem_map.mp hkey
      exact of_decide_eq_true (List.filter_eq_self.mp hsame e he)
  · rintro ⟨hfunc, hnot⟩
    have hall : ∀ e ∈ jsonKeywords (withContext context a.kwargs), e.1 ∉ poppedKeys := by
      intro e he
      apply hnot
      rw [← hkeys]
      exact List.mem_map.mpr ⟨e, he, rfl⟩
    have hnodup := withContext_nodup context a
    rw [← hkeys] at hfunc hnodup
    have hkept : (jsonKeywords (withContext context a.kwargs)).filter (fun e => e.1 ∉ poppedKeys) =
        jsonKeywords (withContext context a.kwargs) := by
      rw [List.filter_eq_self]
      exact fun e he => decide_eq_true (hall e he)
    have hqueued : enqueueHook cluster site hook context a = some {
        call := ⟨hook.path, a.args, jsonKeywords (withContext context a.kwargs)⟩
        options := site.options cluster } := by
      rw [hspec, q2AsyncTask, if_neg, keywords_kept, hkept, keywords_options hall]
      rw [not_or, not_not, func_mem_keywords]
      exact ⟨hfunc, keywords_nodup hnodup hall⟩
    refine ⟨_, hqueued, rfl, ?_⟩
    rw [calledBy, if_pos rfl]

/-- Exactly which keywords reach a hook: all but `func`, and in a plain function all but the names
of Django-Q2's options. -/
theorem hook_called_exactly_iff (cluster : String) (site : HookSite) (hook : HookTarget)
    (context : Option JsonDict) (a : HookArguments) :
    DeliversExactly cluster site hook context a ↔ "func" ∉ a.kwargs.map Prod.fst ∧
      (hook.coroutine = true ∨ ∀ key ∈ a.kwargs.map Prod.fst, key ∉ poppedKeys) := by
  have hne : "func" ≠ "context" := by decide
  have hfunc := mem_withContext context hne a.kwargs
  have hpopped : (∀ key ∈ (withContext context a.kwargs).map Prod.fst, key ∉ poppedKeys) ↔
      ∀ key ∈ a.kwargs.map Prod.fst, key ∉ poppedKeys := by
    constructor
    · intro h key hkey hin
      have hne : key ≠ "context" := fun he => context_not_popped (he ▸ hin)
      exact h key ((mem_withContext context hne a.kwargs).mpr hkey) hin
    · intro h key hkey hin
      have hne : key ≠ "context" := fun he => context_not_popped (he ▸ hin)
      exact h key ((mem_withContext context hne a.kwargs).mp hkey) hin
  cases hc : hook.coroutine with
  | true =>
    rw [delivers_coroutine hc, hfunc]
    simp
  | false =>
    rw [delivers_plain hc, hfunc, hpopped]
    simp

end

/-- A hook of a chain, with a keyword `group`: it is queued in that group and called without it. -/
theorem group_swallowed : ¬ DeliversExactly "default" .workflow
    ⟨"app.hooks.done", false, fun h => Bool.noConfusion h⟩ none
    ⟨[], [("group", .str "eu")], List.nodup_singleton _⟩ := by
  rintro ⟨m, hm, hoptions, hcalled⟩
  have hqueued := Option.some.inj hm
  rw [← hqueued] at hoptions
  have hlength := congrArg List.length hoptions
  simp [HookSite.options, HookSite.keywords, jsonKeywords, withContext, poppedKeys, djangoQOptKeys]
    at hlength

end Qraft
