import Qraft.Enqueue.Idempotency
import Qraft.Notices.Arguments

/-! A whole call of `async_task`, with nobody else at work, and what is left of it when it raises. -/
namespace Qraft

/-- The arguments of `async_task`, with those it refuses outright. -/
structure AsyncArguments extends AsyncCall where
  sync : Bool := false
  save : Option Bool := none
  /-- Whether `cached` is given. -/
  cached : Bool := false
  ackFailure : Option Bool := none
  /-- The keys of `q_options`. -/
  qOptions : List String := []
  /-- What `parse_subject` raises on a subject that is no pair of strings. -/
  oddSubject : Option QraftError := none
  /-- What `_importable_func_path` raises, for a callable. -/
  importError : Option QraftError := none

/-- What a call meets outside the database. -/
structure AsyncContext where
  conf : RetryDefaults := {}
  /-- What `warnings.warn` raises under the filters in force. -/
  warning : Option QraftError := none
  /-- What `broker_for_cluster` raises. -/
  brokerError : Option String → String → Option QraftError := fun _ _ => none
  /-- What the insert or the enqueue raises. -/
  enqueueError : Option QraftError := none
  env : Env

def reservedQOptions : List String := ["hook", "save", "sync", "cached", "ack_failure", "broker", "cluster"]

def sortedKeys (keys : List String) : List String := keys.mergeSort fun a b => a ≤ b

def raiseAny : Option QraftError → Except QraftError Unit
  | none => .ok ()
  | some e => .error e

def AsyncCall.row (c : AsyncCall) (retryPolicy : Option RetryPolicy) (labels : MemberLabels) : QraftTask where
  id := 0
  status := .running
  func := c.func
  taskArgs := c.args
  taskKwargs := c.kwargs
  successHook := c.successHook
  successArgs := c.options.successArgs
  successKwargs := c.options.successKwargs
  failureHook := c.options.failureHook
  failureArgs := c.options.failureArgs
  failureKwargs := c.options.failureKwargs
  hookContext := c.options.hookContext
  retryPolicy
  stallAfter := c.options.stallAfter
  idempotencyKey := c.options.idempotencyKey
  priority := c.options.priority
  subjectType := labels.subjectType
  subjectId := labels.subjectId
  graphId := labels.graphId
  node := labels.node
  dateUpdated := 0

namespace AsyncArguments

/-- The checks before the database is touched. -/
def refuse (a : AsyncArguments) : Except QraftError Unit := do
  if a.sync then
    .error (.valueError ("async_task(sync=True) is not supported: completion tracking relies on the " ++
      "QraftTaskAttempt row existing before the task runs, but a synchronous run finishes (and fires " ++
      "the hook) before that row is committed. Call the function directly for synchronous execution."))
  if a.save = some false then
    .error (.valueError ("async_task(save=False) is not supported: the hook handler resolves completion " ++
      "by reading the saved Django-Q2 Task row, which save=False never writes."))
  if a.cached then
    .error (.valueError ("async_task(cached=...) is not supported: a cached result is never persisted as " ++
      "a Django-Q2 Task row, so the hook handler has nothing to resolve completion against."))
  if a.ackFailure = some false then
    .error (.valueError ("async_task(ack_failure=False) is not supported: Qraft owns retries, and leaving " ++
      "a failed message unacknowledged makes the broker redeliver attempt N while Qraft has already " ++
      "scheduled attempt N+1. Use qraft_options=\x7b'max_attempts': ...\x7d instead."))
  let reserved := reservedQOptions.filter fun key => key ∈ a.qOptions
  if reserved ≠ [] then
    .error (.valueError (s!"async_task(q_options=\x7b...\x7d) must not set {pyReprList (sortedKeys reserved)}: " ++
      "django_q checks q_options for each of these before the plain keyword argument, so passing them " ++
      "here would silently override Qraft's own invariants (hook routing, retry ownership, " ++
      "save/sync/cached rejection, priority-lane targeting). Pass them as direct async_task() keyword " ++
      "arguments instead."))
  let colliding := djangoQOptKeys.filter fun key => key ∈ a.kwargs.map Prod.fst
  if colliding ≠ [] then
    .error (.valueError (s!"async_task() keyword argument(s) {pyReprList (sortedKeys colliding)} collide with " ++
      "django_q option names, so what you meant by them is ambiguous. Pass task options via q_options " ++
      "(reserved invariant keys are rejected there too), and rename the parameter if the function " ++
      "really takes one by that name."))

def checkPriority (a : AsyncArguments) : Except QraftError Unit :=
  if a.options.priority ∈ taskPriorities then .ok ()
  else .error (.valueError (s!"Invalid priority {pyRepr a.options.priority}; must be one of " ++
    pyReprList taskPriorities))

/-- The legacy `hook` is deprecated, whether it is used or not. -/
def warnLegacyHook (a : AsyncArguments) (x : AsyncContext) : Except QraftError Unit :=
  if truthy a.hook then raiseAny x.warning else .ok ()

def resolveBroker (a : AsyncArguments) (x : AsyncContext) (cluster : Option String) : Except QraftError Unit :=
  if ¬ a.broker then raiseAny (x.brokerError cluster a.options.priority)
  else if cluster = none then
    .error (.valueError ("async_task(broker=...) must also name the cluster that broker targets, so " ++
      "retries of this task reach the same cluster. Pass cluster='<name>' (or " ++
      "qraft_options=\x7b'cluster': '<name>'\x7d), or drop broker= and let Qraft resolve it from the " ++
      "cluster."))
  else .ok ()

/-- From the priority check to the insert: the row's columns, and the cluster. -/
def prepare (a : AsyncArguments) (x : AsyncContext) (graph? : GraphId → Option GraphRows) :
    Except QraftError (QraftTask × Option String) := do
  a.checkPriority
  a.warnLegacyHook x
  let retryPolicy ← RetryPolicy.fromOptions x.conf a.options.retry
  raiseAny a.oddSubject
  let (subjectType, subjectId) ← parseSubject a.options.subject
  let labels ← memberLabels graph? a.options.graph a.options.node subjectType subjectId
  raiseAny a.importError
  let cluster ← a.clusterOption
  a.resolveBroker x cluster
  return (a.row retryPolicy labels, cluster)

def reclaims (a : AsyncArguments) : Bool := truthy a.options.idempotencyKey && a.options.idempotencyRetryDead

end AsyncArguments

namespace Enqueueing

/-- `_existing_task_for_key`, for a key that is given. -/
def existingTaskForKey (s : Enqueueing) (key : Option String) : Option Q2TaskId :=
  if truthy key then
    (s.life.store.keyHolder? (key.getD "")).bind fun existing => s.life.store.holderMessage existing.id
  else none

/-- `async_task`: what it returns or raises, and the database after it. -/
def asyncTask (s : Enqueueing) (x : AsyncContext) (a : AsyncArguments) : Except QraftError Q2TaskId × Enqueueing :=
  match a.refuse with
  | .error e => (.error e, s)
  | .ok () =>
    let key := a.options.idempotencyKey
    -- An UPDATE of its own: no transaction is open around it.
    let s := if a.reclaims then s.reclaimDeadTaskKey (key.getD "") else s
    match s.existingTaskForKey key with
    | some q2TaskId => (.ok q2TaskId, s)
    | none =>
      match a.prepare x s.graph? with
      | .error e => (.error e, s)
      | .ok (metadata, cluster) =>
        match s.createAndEnqueue metadata cluster x.enqueueError x.env with
        | .ok s' => (.ok (s.life.store.nextId + 2), s')
        | .error (.integrityError constraint) =>
          match s.existingTaskForKey key with
          | some q2TaskId => (.ok q2TaskId, s)
          | none => (.error (.integrityError constraint), s)
        | .error e => (.error e, s)

def Reclaims (s : Enqueueing) (a : AsyncArguments) : Prop :=
  a.refuse = .ok () ∧ a.reclaims = true ∧
    ∃ t ∈ s.life.store.tasks, t.idempotencyKey = a.options.idempotencyKey ∧ t.status.Dead

/-- `unique=True` on the column of the key. -/
def KeysUnique (s : Enqueueing) : Prop :=
  ∀ t ∈ s.life.store.tasks, ∀ u ∈ s.life.store.tasks, ∀ key, t.idempotencyKey = some key →
    u.idempotencyKey = some key → t = u

end Enqueueing

namespace AsyncArguments
variable {a : AsyncArguments} {x : AsyncContext} {graph? : GraphId → Option GraphRows}

theorem memberLabels_graph {graphId : Option GraphId} {node ty id : Option String} {labels : MemberLabels}
    (h : memberLabels graph? graphId node ty id = .ok labels) {gid : GraphId} (hg : labels.graphId = some gid) :
    ∃ g, graph? gid = some g := by
  unfold memberLabels at h
  split at h
  · split at h
    · cases h
    · cases h
      cases hg
  · rename_i id
    split at h
    · cases h
    · rename_i g hfind
      have hsame : labels.graphId = some id := by
        split at h
        · cases h
        · split at h
          · cases h
          · split at h
            · cases h
              rfl
            · split at h
              · cases h
              · cases h
                rfl
      rw [hsame] at hg
      exact ⟨g, Option.some.inj hg ▸ hfind⟩

theorem prepare_eq_ok {r : QraftTask × Option String} (h : a.prepare x graph? = .ok r) :
    ∃ policy ty id labels cluster, memberLabels graph? a.options.graph a.options.node ty id = .ok labels ∧
      r = (a.row policy labels, cluster) := by
  obtain ⟨-, -, h⟩ := Transaction.bind_eq_ok.mp h
  obtain ⟨-, -, h⟩ := Transaction.bind_eq_ok.mp h
  obtain ⟨policy, -, h⟩ := Transaction.bind_eq_ok.mp h
  obtain ⟨-, -, h⟩ := Transaction.bind_eq_ok.mp h
  obtain ⟨⟨ty, id⟩, -, h⟩ := Transaction.bind_eq_ok.mp h
  obtain ⟨labels, hlabels, h⟩ := Transaction.bind_eq_ok.mp h
  obtain ⟨-, -, h⟩ := Transaction.bind_eq_ok.mp h
  obtain ⟨cluster, -, h⟩ := Transaction.bind_eq_ok.mp h
  obtain ⟨-, -, h⟩ := Transaction.bind_eq_ok.mp h
  cases h
  exact ⟨policy, ty, id, labels, cluster, hlabels, rfl⟩

end AsyncArguments

namespace Enqueueing
variable {s : Enqueueing} {x : AsyncContext} {a : AsyncArguments} {key : String} {t : QraftTask}

private theorem reclaimable_iff (t : QraftTask) (key : String) :
    (decide (t.idempotencyKey = some key) && decide t.status.Dead) = true ↔
      t.idempotencyKey = some key ∧ t.status.Dead := by
  rw [Bool.and_eq_true, decide_eq_true_eq, decide_eq_true_eq]

theorem reclaimDeadTaskKey_eq_self (h : ∀ t ∈ s.life.store.tasks, t.idempotencyKey = some key → ¬ t.status.Dead) :
    s.reclaimDeadTaskKey key = s := by
  have hsame : s.life.store.reclaimDeadTaskKey key = s.life.store := by
    rw [TaskStore.reclaimDeadTaskKey, Rows.updateWhere_eq_self]
    intro t ht hsel
    obtain ⟨hkey, hdead⟩ := (reclaimable_iff t key).mp hsel
    exact absurd hdead (h t ht hkey)
  rw [reclaimDeadTaskKey, hsame]

/-- The dead holder loses the key. -/
theorem reclaimDeadTaskKey_ne (ht : t ∈ s.life.store.tasks) (hkey : t.idempotencyKey = some key)
    (hdead : t.status.Dead) : s.reclaimDeadTaskKey key ≠ s := by
  intro heq
  have htasks : (s.reclaimDeadTaskKey key).life.store.tasks = s.life.store.tasks := by rw [heq]
  have hrow := List.map_inj_left.mp (htasks.trans (List.map_id _).symm) t ht
  rw [if_pos ((reclaimable_iff t key).mpr ⟨hkey, hdead⟩), id_eq] at hrow
  have hnone : t.idempotencyKey = none := by rw [← hrow]
  rw [hkey] at hnone
  cases hnone

/-- A key that a dead task held is free after the reclaim. -/
theorem keyHolder?_reclaimed (hkeys : s.KeysUnique) (ht : t ∈ s.life.store.tasks)
    (hkey : t.idempotencyKey = some key) (hdead : t.status.Dead) :
    (s.reclaimDeadTaskKey key).life.store.keyHolder? key = none := by
  apply List.find?_eq_none.mpr
  intro u hu hheld
  obtain ⟨v, hv, rfl⟩ := Rows.mem_updateWhere.mp hu
  have hvkey : v.idempotencyKey = some key := by
    split at hheld
    · cases of_decide_eq_true hheld
    · exact of_decide_eq_true hheld
  rw [hkeys v hv t ht key hvkey hkey, if_pos ((reclaimable_iff t key).mpr ⟨hkey, hdead⟩)] at hheld
  cases of_decide_eq_true hheld

theorem relabel_returns {metadata : QraftTask}
    (h : ∀ id, metadata.graphId = some id → ∃ g, s.graph? id = some g) :
    ∃ m, s.relabel metadata = .ok m ∧ m.idempotencyKey = metadata.idempotencyKey := by
  rw [relabel]
  cases hid : metadata.graphId with
  | none => exact ⟨_, rfl, rfl⟩
  | some id =>
    obtain ⟨g, hg⟩ := h id hid
    dsimp only
    split
    · exact ⟨_, rfl, rfl⟩
    · rw [hg]
      exact ⟨_, rfl, rfl⟩

/-- With its key free and its graph there, a row is inserted unless that or the enqueue raises. -/
theorem createAndEnqueue_of_free {metadata : QraftTask} (hg : ∀ id, metadata.graphId = some id → ∃ g, s.graph? id = some g)
    (hfree : ∀ key, metadata.idempotencyKey = some key → s.life.store.keyHolder? key = none)
    (cluster : Option String) (env : Env) :
    (∃ s', s.createAndEnqueue metadata cluster none env = .ok s') ∧
      ∀ e, s.createAndEnqueue metadata cluster (some e) env = .error e := by
  obtain ⟨m, hm, hkey⟩ := relabel_returns hg
  have hnone : ¬ (m.idempotencyKey.any fun key => (s.life.store.keyHolder? key).isSome) = true := by
    cases hmk : m.idempotencyKey with
    | none => nofun
    | some key =>
      rw [Option.any_some, hfree key (hkey ▸ hmk)]
      nofun
  constructor
  · have hrest : s.createAndEnqueue metadata cluster none env =
        if (m.idempotencyKey.any fun key => (s.life.store.keyHolder? key).isSome) = true then
          .error (.integrityError "idempotency_key")
        else .ok { s with
          life := s.life.createAndEnqueue m cluster env
          keyed := s.keyed ++ m.idempotencyKey.toList.map (⟨·, s.life.store.nextId⟩) } := by
      rw [createAndEnqueue, hm]
      rfl
    exact ⟨_, hrest.trans (if_neg hnone)⟩
  · intro e
    have hrest : s.createAndEnqueue metadata cluster (some e) env =
        if (m.idempotencyKey.any fun key => (s.life.store.keyHolder? key).isSome) = true then
          .error (.integrityError "idempotency_key") else .error e := by
      rw [createAndEnqueue, hm]
      rfl
    rw [hrest, if_neg hnone]

private theorem Reclaims.free (h : s.Reclaims a) (hkeys : s.KeysUnique) :
    let s' := s.reclaimDeadTaskKey (a.options.idempotencyKey.getD "")
    s' ≠ s ∧ (∀ key, a.options.idempotencyKey = some key → s'.life.store.keyHolder? key = none) ∧
      s'.existingTaskForKey a.options.idempotencyKey = none := by
  obtain ⟨-, hreclaims, t, ht, hheld, hdead⟩ := h
  obtain ⟨key, hkey⟩ := truthy_eq_true (Bool.and_eq_true_iff.mp hreclaims).1
  have hholder := keyHolder?_reclaimed hkeys ht (hheld.trans hkey) hdead
  rw [hkey, Option.getD_some]
  refine ⟨reclaimDeadTaskKey_ne ht (hheld.trans hkey) hdead, ?_, ?_⟩
  · rintro _ ⟨rfl⟩
    exact hholder
  · rw [existingTaskForKey, Option.getD_some, hholder, Option.bind_none, ite_self]

/-- A call that took a dead holder's key creates its task if nothing raises. -/
theorem asyncTask_creates (hkeys : s.KeysUnique) (h : s.Reclaims a) {r : QraftTask × Option String}
    (hp : a.prepare x s.graph? = .ok r) (hx : x.enqueueError = none) : ∃ q, (s.asyncTask x a).1 = .ok q := by
  obtain ⟨-, hfree, hnone⟩ := h.free hkeys
  obtain ⟨policy, ty, id, labels, cluster, hlabels, rfl⟩ := AsyncArguments.prepare_eq_ok hp
  obtain ⟨s', hs'⟩ := (@createAndEnqueue_of_free (s.reclaimDeadTaskKey (a.options.idempotencyKey.getD ""))
    (a.row policy labels) (fun _ hg => AsyncArguments.memberLabels_graph hlabels hg) hfree cluster x.env).1
  have hgraph : (s.reclaimDeadTaskKey (a.options.idempotencyKey.getD "")).graph? = s.graph? := rfl
  rw [asyncTask, h.1]
  dsimp only
  rw [if_pos h.2.1, hnone]
  dsimp only
  rw [hgraph, hp]
  dsimp only
  rw [hx, hs']
  exact ⟨_, rfl⟩

/-- If something raises, the key is gone from its holder. -/
theorem asyncTask_loses (hkeys : s.KeysUnique) (h : s.Reclaims a)
    (hfails : (∃ e, a.prepare x s.graph? = .error e) ∨ x.enqueueError ≠ none) :
    (∃ e, (s.asyncTask x a).1 = .error e) ∧ (s.asyncTask x a).2 ≠ s := by
  obtain ⟨hne, hfree, hnone⟩ := h.free hkeys
  have hgraph : (s.reclaimDeadTaskKey (a.options.idempotencyKey.getD "")).graph? = s.graph? := rfl
  rw [asyncTask, h.1]
  dsimp only
  rw [if_pos h.2.1, hnone]
  dsimp only
  rw [hgraph]
  cases hp : a.prepare x s.graph? with
  | error e => exact ⟨⟨e, rfl⟩, hne⟩
  | ok r =>
    have hraises : ∃ e, x.enqueueError = some e := by
      rcases hfails with ⟨e, he⟩ | hx
      · rw [hp] at he
        cases he
      · exact Option.ne_none_iff_exists'.mp hx
    obtain ⟨e, he⟩ := hraises
    obtain ⟨policy, ty, id, labels, cluster, hlabels, rfl⟩ := AsyncArguments.prepare_eq_ok hp
    have hcreate := (@createAndEnqueue_of_free (s.reclaimDeadTaskKey (a.options.idempotencyKey.getD ""))
      (a.row policy labels) (fun _ hg => AsyncArguments.memberLabels_graph hlabels hg) hfree cluster x.env).2 e
    dsimp only
    rw [he, hcreate]
    cases e with
    | graphError message => exact ⟨⟨_, rfl⟩, hne⟩
    | valueError message => exact ⟨⟨_, rfl⟩, hne⟩
    | integrityError constraint => exact ⟨⟨_, rfl⟩, hne⟩

/-- With no key taken, a call that raises has written nothing. -/
theorem asyncTask_kept (h : ¬ s.Reclaims a) {e : QraftError} (hraised : (s.asyncTask x a).1 = .error e) :
    (s.asyncTask x a).2 = s := by
  rw [asyncTask] at hraised ⊢
  cases hrefuse : a.refuse with
  | error e => rfl
  | ok =>
    have hsame : (if a.reclaims then s.reclaimDeadTaskKey (a.options.idempotencyKey.getD "") else s) = s := by
      split
      · rename_i hreclaims
        obtain ⟨key, hkey⟩ := truthy_eq_true (Bool.and_eq_true_iff.mp hreclaims).1
        apply reclaimDeadTaskKey_eq_self
        intro t ht hheld hdead
        rw [hkey, Option.getD_some] at hheld
        exact h ⟨hrefuse, hreclaims, t, ht, hheld.trans hkey.symm, hdead⟩
      · rfl
    rw [hrefuse] at hraised
    dsimp only at hraised ⊢
    rw [hsame] at hraised ⊢
    cases hexisting : s.existingTaskForKey a.options.idempotencyKey with
    | some q => rfl
    | none =>
      rw [hexisting] at hraised
      dsimp only at hraised ⊢
      cases hp : a.prepare x s.graph? with
      | error e => rfl
      | ok r =>
        rw [hp] at hraised
        dsimp only at hraised ⊢
        cases hc : s.createAndEnqueue r.1 r.2 x.enqueueError x.env with
        | ok s' =>
          rw [hc] at hraised
          cases hraised
        | error e =>
          cases e with
          | graphError message => rfl
          | valueError message => rfl
          | integrityError constraint => rfl

/-- A call that raises leaves the database as it was, exactly if it did not take the key of a dead
task before a check, the insert or the enqueue raised. -/
theorem failing_call_iff (hkeys : s.KeysUnique) (x : AsyncContext) (a : AsyncArguments) :
    (∀ e, (s.asyncTask x a).1 = .error e → (s.asyncTask x a).2 = s) ↔
      (s.Reclaims a → (∃ r, a.prepare x s.graph? = .ok r) ∧ x.enqueueError = none) := by
  constructor
  · intro hsafe hrec
    by_contra hready
    have hfails : (∃ e, a.prepare x s.graph? = .error e) ∨ x.enqueueError ≠ none := by
      cases hp : a.prepare x s.graph? with
      | error e => exact .inl ⟨e, rfl⟩
      | ok r => exact .inr fun hx => hready ⟨⟨r, hp⟩, hx⟩
    obtain ⟨⟨e, he⟩, hchanged⟩ := asyncTask_loses hkeys hrec hfails
    exact hchanged (hsafe e he)
  · intro hready e he
    by_cases hrec : s.Reclaims a
    · obtain ⟨⟨r, hp⟩, hx⟩ := hready hrec
      obtain ⟨q, hq⟩ := asyncTask_creates hkeys hrec hp hx
      rw [hq] at he
      cases he
    · exact asyncTask_kept hrec he

private def deadCharge : Enqueueing where
  life.store := {
    tasks := [{
      id := 0, status := .failed, func := "app.charge", idempotencyKey := some "order-7", dateUpdated := 5
      attempts := [{ id := 1, attemptNumber := 1, q2TaskId := some 2, success := some false, dateCreated := 0 }] }]
    nextId := 3 }

private def chargeAgain (priority : String) : AsyncArguments where
  func := "app.charge"
  options := { idempotencyKey := some "order-7", idempotencyRetryDead := true, priority }

private theorem deadCharge_keys : deadCharge.KeysUnique := by
  intro t ht u hu key _ _
  rw [List.mem_singleton.mp ht, List.mem_singleton.mp hu]

/-- A broker that is down costs the task its key. -/
theorem failing_call_deadCharge :
    let x : AsyncContext := { env := { now := 9 }, enqueueError := some (.valueError "broker down") }
    ¬ ∀ e, (deadCharge.asyncTask x (chargeAgain "high")).1 = .error e →
      (deadCharge.asyncTask x (chargeAgain "high")).2 = deadCharge := by
  intro x hsafe
  have hready := (failing_call_iff deadCharge_keys x (chargeAgain "high")).mp hsafe
    ⟨rfl, rfl, _, List.mem_singleton_self _, rfl, .inl rfl⟩
  cases hready.2

/-- So does a priority that does not exist. -/
theorem invalid_priority_frees_key :
    ∃ e, (deadCharge.asyncTask { env := { now := 9 } } (chargeAgain "urgent")).1 = .error e ∧
      (deadCharge.life.store.keyHolder? "order-7").isSome = true ∧
      ((deadCharge.asyncTask { env := { now := 9 } } (chargeAgain "urgent")).2.life.store.keyHolder?
        "order-7").isSome = false :=
  ⟨_, rfl, rfl, rfl⟩

end Enqueueing
end Qraft
