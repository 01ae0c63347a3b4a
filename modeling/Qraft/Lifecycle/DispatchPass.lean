import Mathlib.Data.List.Pairwise
import Qraft.Scheduler

/-! One pass of a dispatcher over the due attempts: most overdue first, up to the first enqueue
that raises. -/
namespace Qraft

/-- The filter of `_claim_and_enqueue`. -/
def QraftTaskAttempt.overdue (a : QraftTaskAttempt) (cutoff : Time) : Bool :=
  a.state = .scheduled && a.notBefore.any fun due => due ≤ cutoff

/-- What a due attempt is ordered by. -/
def QraftTaskAttempt.dueAt (a : QraftTaskAttempt) : Time := a.notBefore.getD 0

namespace TaskStore

def attemptRows (st : TaskStore) : List QraftTaskAttempt := st.tasks.flatMap fun t => t.attempts

def dueRows (st : TaskStore) (cutoff : Time) : List QraftTaskAttempt :=
  st.attemptRows.filter fun a => a.overdue cutoff

structure PrimaryKeys (st : TaskStore) : Prop where
  tasks : (st.tasks.map fun t => t.id).Nodup
  attempts : (st.attemptRows.map fun a => a.id).Nodup

/-- What `order_by("not_before").first()` may read: it leaves open which of two equally overdue
rows comes first. -/
def IsFirst (st : TaskStore) (cutoff : Time) (a : QraftTaskAttempt) : Prop :=
  a ∈ st.dueRows cutoff ∧ ∀ b ∈ st.dueRows cutoff, a.dueAt ≤ b.dueAt

end TaskStore

structure DispatchPass where
  store : TaskStore
  sent : List (AttemptId × Q2TaskId) := []

/-- `_claim_and_enqueue` returns `True` or `None`, or raises. -/
inductive ClaimOutcome where
  | enqueued
  | nothing
  | raised

/-- One call of `_claim_and_enqueue` with no dispatcher to compete with. `enqueue` is what
`_enqueue` does with each attempt: a message id, or an exception. -/
inductive ClaimCall (enqueue : AttemptId → Option Q2TaskId) (cluster : String) (cutoff : Time) :
    DispatchPass → ClaimOutcome → DispatchPass → Prop
  | nothing {p : DispatchPass} (h : p.store.dueRows cutoff = []) : ClaimCall enqueue cluster cutoff p .nothing p
  /-- The transaction is rolled back, the claim with it. -/
  | raised {p : DispatchPass} {a : QraftTaskAttempt} (h : p.store.IsFirst cutoff a)
      (hfail : enqueue a.id = none) : ClaimCall enqueue cluster cutoff p .raised p
  | enqueued {p : DispatchPass} {t t' : QraftTask} {a : QraftTaskAttempt} {q : Q2TaskId} {claimedAt : Time}
      (h : p.store.IsFirst cutoff a) (ht : t ∈ p.store.tasks) (ha : a ∈ t.attempts)
      (hq : enqueue a.id = some q) (hok : t.claimAndEnqueue a.id cutoff claimedAt q cluster = some t') :
      ClaimCall enqueue cluster cutoff p .enqueued ⟨p.store.save t', p.sent ++ [(a.id, q)]⟩

/-- The loop of `dispatch_due`, by the turns left and the attempts dispatched so far. -/
inductive DispatchLoop (enqueue : AttemptId → Option Q2TaskId) (cluster : String) (cutoff : Time)
    (limit : Nat) : Nat → Nat → DispatchPass → Nat → DispatchPass → Prop
  | exhausted {d : Nat} {p : DispatchPass} : DispatchLoop enqueue cluster cutoff limit 0 d p d p
  | full {n d : Nat} {p : DispatchPass} (h : limit ≤ d) :
      DispatchLoop enqueue cluster cutoff limit (n + 1) d p d p
  | broke {n d : Nat} {p p' : DispatchPass} {o : ClaimOutcome} (h : d < limit) (ho : o ≠ .enqueued)
      (hcall : ClaimCall enqueue cluster cutoff p o p') :
      DispatchLoop enqueue cluster cutoff limit (n + 1) d p d p'
  | next {n d d' : Nat} {p p' p'' : DispatchPass} (h : d < limit)
      (hcall : ClaimCall enqueue cluster cutoff p .enqueued p')
      (hloop : DispatchLoop enqueue cluster cutoff limit n (d + 1) p' d' p'') :
      DispatchLoop enqueue cluster cutoff limit (n + 1) d p d' p''

def DispatchDue (enqueue : AttemptId → Option Q2TaskId) (cluster : String) (cutoff : Time) (limit : Nat)
    (st : TaskStore) (dispatched : Nat) (p : DispatchPass) : Prop :=
  DispatchLoop enqueue cluster cutoff limit (2 * limit) 0 ⟨st, []⟩ dispatched p

/-- The attempt's message was handed over, and its row says so. -/
def DispatchPass.Enqueued (p : DispatchPass) (a : QraftTaskAttempt) (q : Q2TaskId) : Prop :=
  (a.id, q) ∈ p.sent ∧ ∃ b ∈ p.store.attemptRows, b.id = a.id ∧ b.state = .queued ∧ b.q2TaskId = some q

/-- Every attempt whose own enqueue succeeds is enqueued, and every other stays as it was. -/
def DispatchPass.Isolated (enqueue : AttemptId → Option Q2TaskId) (cutoff : Time) (st : TaskStore)
    (p : DispatchPass) : Prop :=
  ∀ a ∈ st.dueRows cutoff, (∀ q, enqueue a.id = some q → p.Enqueued a q) ∧
    (enqueue a.id = none → a ∈ p.store.dueRows cutoff)

namespace DispatchPass
open TaskStore

section
variable {enqueue : AttemptId → Option Q2TaskId} {cluster : String} {cutoff : Time} {limit : Nat}
  {st : TaskStore} {p p' : DispatchPass}

private theorem mem_rows {t : QraftTask} {a : QraftTaskAttempt} (ht : t ∈ st.tasks) (ha : a ∈ t.attempts) :
    a ∈ st.attemptRows := List.mem_flatMap.mpr ⟨t, ht, ha⟩

private theorem eq_of_id (h : st.PrimaryKeys) {a b : QraftTaskAttempt} (ha : a ∈ st.attemptRows)
    (hb : b ∈ st.attemptRows) (hid : a.id = b.id) : a = b :=
  Rows.eq_of_key_eq h.attempts ha hb hid

private theorem owner_unique (h : st.PrimaryKeys) {t u : QraftTask} {a b : QraftTaskAttempt}
    (ht : t ∈ st.tasks) (ha : a ∈ t.attempts) (hu : u ∈ st.tasks) (hb : b ∈ u.attempts)
    (hid : a.id = b.id) : t = u := by
  have hn := h.attempts
  rw [TaskStore.attemptRows, List.map_flatMap, List.nodup_flatMap] at hn
  by_contra hne
  have hsymm : Std.Symm (Function.onFun List.Disjoint fun t : QraftTask => t.attempts.map fun a => a.id) :=
    ⟨fun _ _ hd x hx hy => hd hy hx⟩
  have hdisjoint := hn.2.forall ht hu hne
  exact hdisjoint (List.mem_map_of_mem ha) (hid ▸ List.mem_map_of_mem hb)

/-- A claimed row is no longer due, and the others are due as before. -/
private theorem overdue_updateWhere (id : AttemptId) (claimedAt : Time) (q : Q2TaskId)
    (rows : List QraftTaskAttempt) :
    (Rows.updateWhere (fun b => b.id = id) (fun b => b.enqueue claimedAt q cluster) rows).filter
        (fun b => b.overdue cutoff) =
      rows.filter fun b => decide (b.id ≠ id) && b.overdue cutoff := by
  induction rows with
  | nil => rfl
  | cons b rows ih =>
    rw [Rows.updateWhere] at ih ⊢
    rw [List.map_cons, List.filter_cons, List.filter_cons, ih]
    by_cases hid : b.id = id
    · have hclaimed : (b.enqueue claimedAt q cluster).overdue cutoff = false := rfl
      simp [hid, hclaimed]
    · simp [hid]

/-- The claim rewrites one attempt row, in its place. -/
private theorem attemptRows_save (h : st.PrimaryKeys) {t t' : QraftTask} {a : QraftTaskAttempt} {q : Q2TaskId}
    {claimedAt : Time} (ht : t ∈ st.tasks) (ha : a ∈ t.attempts)
    (hok : t.claimAndEnqueue a.id cutoff claimedAt q cluster = some t') :
    (st.save t').attemptRows =
      Rows.updateWhere (fun b => b.id = a.id) (fun b => b.enqueue claimedAt q cluster) st.attemptRows := by
  obtain ⟨-, ht'⟩ := QraftTask.claimAndEnqueue_eq_some hok
  have hid : t'.id = t.id := by
    rw [ht']
    rfl
  have hattempts : t'.attempts =
      Rows.updateWhere (fun b => b.id = a.id) (fun b => b.enqueue claimedAt q cluster) t.attempts := by
    rw [ht']
    rfl
  have hrow : ∀ r ∈ st.tasks, (if r.id = t'.id then t' else r).attempts =
      Rows.updateWhere (fun b => b.id = a.id) (fun b => b.enqueue claimedAt q cluster) r.attempts := by
    intro r hr
    split
    · rename_i hrt
      rw [Rows.eq_of_key_eq h.tasks hr ht (hrt.trans hid), hattempts]
    · rename_i hrt
      rw [Rows.updateWhere_eq_self]
      intro b hb hba
      have hsame := owner_unique h hr hb ht ha (of_decide_eq_true hba)
      rw [hsame, hid] at hrt
      exact absurd rfl hrt
  rw [TaskStore.attemptRows, TaskStore.attemptRows, TaskStore.save, Rows.updateWhere, Rows.updateWhere,
    List.flatMap_map, List.map_flatMap]
  apply List.flatMap_congr
  intro r hr
  have hr' := hrow r hr
  rw [Rows.updateWhere] at hr'
  simpa using hr'

/-- What a call that enqueued changed: the row of one most overdue attempt. -/
private structure Claimed (enqueue : AttemptId → Option Q2TaskId) (cutoff : Time) (a : QraftTaskAttempt)
    (q : Q2TaskId) (p p' : DispatchPass) : Prop where
  first : p.store.IsFirst cutoff a
  answer : enqueue a.id = some q
  sent : p'.sent = p.sent ++ [(a.id, q)]
  keys : p'.store.PrimaryKeys
  claimed : ∃ b ∈ p'.store.attemptRows, b.id = a.id ∧ b.state = .queued ∧ b.q2TaskId = some q
  others : ∀ b ∈ p.store.attemptRows, b.id ≠ a.id → b ∈ p'.store.attemptRows
  due : p'.store.dueRows cutoff = (p.store.dueRows cutoff).filter fun b => b.id ≠ a.id

private theorem ClaimCall.claimed (h : p.store.PrimaryKeys)
    (hcall : ClaimCall enqueue cluster cutoff p .enqueued p') :
    ∃ a q, Claimed enqueue cutoff a q p p' := by
  cases hcall with
  | @enqueued t t' a q claimedAt hfirst ht ha hq hok =>
    have hrows := attemptRows_save h ht ha hok
    have hmem : a ∈ p.store.attemptRows := mem_rows ht ha
    refine ⟨a, q, hfirst, hq, rfl, ⟨?_, ?_⟩, ?_, ?_, ?_⟩
    · obtain ⟨-, ht'⟩ := QraftTask.claimAndEnqueue_eq_some hok
      have hid : t'.id = t.id := by
        rw [ht']
        rfl
      change ((Rows.updateWhere _ _ p.store.tasks).map fun t => t.id).Nodup
      rw [Rows.map_updateWhere]
      · exact h.tasks
      · intro r _ hr
        exact (of_decide_eq_true hr).symm
    · rw [hrows, Rows.map_updateWhere]
      · exact h.attempts
      · exact fun _ _ _ => rfl
    · rw [hrows]
      refine ⟨_, Rows.mem_updateWhere_of_mem hmem, ?_⟩
      rw [if_pos (by simp)]
      exact ⟨rfl, rfl, rfl⟩
    · intro b hb hne
      rw [hrows]
      have hkept := @Rows.mem_updateWhere_of_mem _ (fun b : QraftTaskAttempt => decide (b.id = a.id))
        (fun b => b.enqueue claimedAt q cluster) _ _ hb
      rwa [if_neg (by simpa using hne)] at hkept
    · rw [TaskStore.dueRows, hrows, TaskStore.dueRows, List.filter_filter]
      exact overdue_updateWhere a.id claimedAt q p.store.attemptRows

/-- A row that the pass did not enqueue is as it was. -/
private theorem DispatchLoop.frame {n d d' : Nat} (h : p.store.PrimaryKeys)
    (hloop : DispatchLoop enqueue cluster cutoff limit n d p d' p') :
    p'.store.PrimaryKeys ∧ (∀ x ∈ p.sent, x ∈ p'.sent) ∧
      ∀ b ∈ p.store.attemptRows, (b.overdue cutoff = false ∨ enqueue b.id = none) → b ∈ p'.store.attemptRows := by
  induction hloop with
  | exhausted => exact ⟨h, fun _ hx => hx, fun _ hb _ => hb⟩
  | full => exact ⟨h, fun _ hx => hx, fun _ hb _ => hb⟩
  | broke _ ho hcall =>
    cases hcall with
    | nothing => exact ⟨h, fun _ hx => hx, fun _ hb _ => hb⟩
    | raised => exact ⟨h, fun _ hx => hx, fun _ hb _ => hb⟩
    | enqueued => exact absurd rfl ho
  | next _ hcall _ ih =>
    obtain ⟨a, q, hclaimed⟩ := ClaimCall.claimed h hcall
    obtain ⟨hkeys, hsent, hrows⟩ := ih hclaimed.keys
    refine ⟨hkeys, ?_, ?_⟩
    · intro x hx
      apply hsent
      rw [hclaimed.sent]
      exact List.mem_append_left _ hx
    · intro b hb hkept
      refine hrows b (hclaimed.others b hb ?_) hkept
      intro hid
      have hba : b = a := eq_of_id h hb (List.mem_of_mem_filter hclaimed.first.1) hid
      rcases hkept with hdue | hfail
      · have hdue' := List.of_mem_filter hclaimed.first.1
        rw [hba] at hdue
        rw [hdue] at hdue'
        cases hdue'
      · rw [hid, hclaimed.answer] at hfail
        cases hfail

/-- While every failing row is due later than the rest, the pass reaches each of the rest. -/
private theorem DispatchLoop.complete {n d d' : Nat} (h : p.store.PrimaryKeys)
    (hturns : (p.store.dueRows cutoff).length ≤ n) (hlimit : (p.store.dueRows cutoff).length + d ≤ limit)
    (horder : ∀ f ∈ p.store.dueRows cutoff, ∀ b ∈ p.store.dueRows cutoff, enqueue f.id = none →
      enqueue b.id ≠ none → b.dueAt < f.dueAt)
    (hloop : DispatchLoop enqueue cluster cutoff limit n d p d' p') {b : QraftTaskAttempt}
    (hb : b ∈ p.store.dueRows cutoff) {q : Q2TaskId} (hq : enqueue b.id = some q) : p'.Enqueued b q := by
  have hpos : 0 < (p.store.dueRows cutoff).length := List.length_pos_of_mem hb
  induction hloop with
  | exhausted => omega
  | full hfull => omega
  | broke _ ho hcall =>
    cases hcall with
    | nothing hnone =>
      rw [hnone] at hb
      cases hb
    | raised hfirst hfail =>
      have hlt := horder _ hfirst.1 b hb hfail (by rw [hq]; exact Option.some_ne_none q)
      exact absurd (hfirst.2 b hb) (Nat.not_le_of_lt hlt)
    | enqueued => exact absurd rfl ho
  | @next _ _ _ p mid _ _ hcall hrest ih =>
    obtain ⟨a, qa, hclaimed⟩ := ClaimCall.claimed h hcall
    by_cases hid : b.id = a.id
    · rw [hid, hclaimed.answer] at hq
      cases hq
      obtain ⟨-, hsent, hrows⟩ := DispatchLoop.frame hclaimed.keys hrest
      obtain ⟨r, hr, hrid, hrs, hrq⟩ := hclaimed.claimed
      refine ⟨?_, r, hrows r hr (.inl ?_), hrid.trans hid.symm, hrs, hrq⟩
      · apply hsent
        rw [hclaimed.sent, hid]
        exact List.mem_append_right _ List.mem_cons_self
      · rw [QraftTaskAttempt.overdue, hrs]
        rfl
    · have hless : (mid.store.dueRows cutoff).length < (p.store.dueRows cutoff).length := by
        rw [hclaimed.due]
        exact List.length_filter_lt_length_iff_exists.mpr ⟨a, hclaimed.first.1, by simp⟩
      have hdue : ∀ r ∈ mid.store.dueRows cutoff, r ∈ p.store.dueRows cutoff := by
        intro r hr
        rw [hclaimed.due] at hr
        exact List.mem_of_mem_filter hr
      have hstays : b ∈ mid.store.dueRows cutoff := by
        rw [hclaimed.due]
        exact List.mem_filter.mpr ⟨hb, by simpa using hid⟩
      exact ih hclaimed.keys (by omega) (by omega)
        (fun f hf r hr => horder f (hdue f hf) r (hdue r hr)) hstays (List.length_pos_of_mem hstays)

private theorem exists_first (hne : st.dueRows cutoff ≠ []) : ∃ a, st.IsFirst cutoff a := by
  cases hmin : (st.dueRows cutoff).argmin fun a => a.dueAt with
  | none => exact absurd (List.argmin_eq_none.mp hmin) hne
  | some a => exact ⟨a, List.argmin_mem hmin, fun b hb => List.le_of_mem_argmin hb hmin⟩

/-- The claim of a due row matches it. -/
private theorem exists_enqueued {a : QraftTaskAttempt} {q : Q2TaskId} (h : p.store.PrimaryKeys)
    (hfirst : p.store.IsFirst cutoff a) (hq : enqueue a.id = some q) :
    ∃ p', ClaimCall enqueue cluster cutoff p .enqueued p' := by
  obtain ⟨hmem, hdue⟩ := List.mem_filter.mp hfirst.1
  obtain ⟨t, ht, ha⟩ := List.mem_flatMap.mp hmem
  have hn : (t.attempts.map fun b => b.id).Nodup := by
    have hall := h.attempts
    rw [TaskStore.attemptRows, List.map_flatMap, List.nodup_flatMap] at hall
    exact hall.1 t ht
  have hfind : t.attempts.find? (fun b => b.id = a.id) = some a := by
    have hg := @Rows.get?_of_mem _ _ _ (fun b : QraftTaskAttempt => b.id) _ hn _ ha
    rwa [Rows.get?] at hg
  rw [QraftTaskAttempt.overdue, Bool.and_eq_true, decide_eq_true_eq, Option.any_eq_true] at hdue
  obtain ⟨hs, due, hb, hle⟩ := hdue
  have hok : (t.claimAndEnqueue a.id cutoff cutoff q cluster).isSome := by
    have hle := of_decide_eq_true hle
    simp [QraftTask.claimAndEnqueue, hfind, hb, hs, hle]
  obtain ⟨t', ht'⟩ := Option.isSome_iff_exists.mp hok
  exact ⟨_, .enqueued hfirst ht ha hq ht'⟩

/-- Some pass stops without a claim of anything due as late as a failing row. -/
private theorem exists_stopped (h : p.store.PrimaryKeys) {f : QraftTaskAttempt}
    (hf : f ∈ p.store.dueRows cutoff) (hfail : enqueue f.id = none) (n d : Nat) :
    ∃ d' p', DispatchLoop enqueue cluster cutoff limit n d p d' p' ∧
      ∀ b ∈ p.store.attemptRows, f.dueAt ≤ b.dueAt → b ∈ p'.store.attemptRows := by
  induction n generalizing d p with
  | zero => exact ⟨d, p, .exhausted, fun _ hb _ => hb⟩
  | succ n ih =>
    by_cases hfull : limit ≤ d
    · exact ⟨d, p, .full hfull, fun _ hb _ => hb⟩
    · have hd : d < limit := by omega
      obtain ⟨a, hfirst⟩ := exists_first (List.ne_nil_of_mem hf)
      by_cases hlate : f.dueAt ≤ a.dueAt
      · have hf' : p.store.IsFirst cutoff f := ⟨hf, fun b hb => hlate.trans (hfirst.2 b hb)⟩
        exact ⟨d, p, .broke hd (by exact nofun) (.raised hf' hfail), fun _ hb _ => hb⟩
      · cases hq : enqueue a.id with
        | none => exact ⟨d, p, .broke hd (by exact nofun) (.raised hfirst hq), fun _ hb _ => hb⟩
        | some q =>
          obtain ⟨mid, hcall⟩ := @exists_enqueued _ cluster _ _ _ _ h hfirst hq
          obtain ⟨a', q', hclaimed⟩ := ClaimCall.claimed h hcall
          have hearly : a'.dueAt < f.dueAt := (hclaimed.first.2 a hfirst.1).trans_lt (not_le.mp hlate)
          have hother : ∀ b ∈ p.store.attemptRows, f.dueAt ≤ b.dueAt → b.id ≠ a'.id := by
            intro b hb hle hid
            rw [eq_of_id h hb (List.mem_of_mem_filter hclaimed.first.1) hid] at hle
            exact absurd hle (not_le.mpr hearly)
          have hf' : f ∈ mid.store.dueRows cutoff := by
            rw [hclaimed.due]
            exact List.mem_filter.mpr ⟨hf, by simpa using hother f (List.mem_of_mem_filter hf) le_rfl⟩
          obtain ⟨d', p', hloop, hrows⟩ := ih hclaimed.keys hf' (d + 1)
          refine ⟨d', p', .next hd hcall hloop, ?_⟩
          intro b hb hle
          exact hrows b (hclaimed.others b hb (hother b hb hle)) hle

/-- A pass over all the due attempts is isolated exactly when every attempt whose enqueue fails is due
later than every one whose enqueue succeeds: the first exception ends the pass. -/
theorem dispatch_isolated_iff (enqueue : AttemptId → Option Q2TaskId) (cluster : String) (cutoff : Time)
    {limit : Nat} {st : TaskStore} (hkeys : st.PrimaryKeys) (hlimit : (st.dueRows cutoff).length ≤ limit) :
    (∀ dispatched p, DispatchDue enqueue cluster cutoff limit st dispatched p → Isolated enqueue cutoff st p) ↔
      ∀ f ∈ st.dueRows cutoff, ∀ a ∈ st.dueRows cutoff, enqueue f.id = none → enqueue a.id ≠ none →
        a.dueAt < f.dueAt := by
  constructor
  · intro hall f hf a ha hfail hok
    by_contra hlate
    obtain ⟨d, p, hpass, hrows⟩ :=
      @exists_stopped enqueue cluster cutoff limit ⟨st, []⟩ hkeys f hf hfail (2 * limit) 0
    obtain ⟨q, hq⟩ := Option.ne_none_iff_exists'.mp hok
    obtain ⟨-, b, hb, hid, hs, -⟩ := (hall d p hpass a ha).1 q hq
    have hsame : a = b :=
      eq_of_id (DispatchLoop.frame hkeys hpass).1 (hrows a (List.mem_of_mem_filter ha) (not_lt.mp hlate)) hb hid.symm
    have hdue := List.of_mem_filter ha
    rw [hsame, QraftTaskAttempt.overdue, hs] at hdue
    cases hdue
  · intro horder d p hpass a ha
    refine ⟨?_, ?_⟩
    · intro q hq
      have hturns : (st.dueRows cutoff).length ≤ 2 * limit := by omega
      exact DispatchLoop.complete hkeys hturns hlimit horder hpass ha hq
    · intro hfail
      obtain ⟨-, -, hrows⟩ := DispatchLoop.frame hkeys hpass
      obtain ⟨hmem, hdue⟩ := List.mem_filter.mp ha
      exact List.mem_filter.mpr ⟨hrows a hmem (.inr hfail), hdue⟩

end

private def dueAttempt (id : AttemptId) (due : Time) (cluster : String) : QraftTaskAttempt where
  id := id
  attemptNumber := 2
  state := .scheduled
  notBefore := some due
  cluster := some cluster
  dateCreated := 0

/-- Two retries that are due, for the queues of two clusters. -/
private def twoClusters (first second : String) : TaskStore where
  tasks :=
    [{ id := 10, func := "f", dateUpdated := 0, attempts := [dueAttempt 11 5 first] },
      { id := 20, func := "f", dateUpdated := 0, attempts := [dueAttempt 21 6 second] }]
  nextId := 30

/-- The attempt that the reachable broker takes comes first. -/
theorem dispatch_isolated_reachable_first : ((twoClusters "up" "down").dueRows 10).length = 2 ∧
    ∀ dispatched p,
      DispatchDue (fun id => if id = 11 then some 31 else none) "up" 10 2 (twoClusters "up" "down") dispatched p →
        Isolated (fun id => if id = 11 then some 31 else none) 10 (twoClusters "up" "down") p := by
  refine ⟨rfl, ?_⟩
  apply (dispatch_isolated_iff _ "up" 10 ⟨by decide, by decide⟩ (by decide)).mpr
  intro f hf a ha hfail hok
  have hids : ∀ b ∈ (twoClusters "up" "down").dueRows 10, (b.id = 11 ∧ b.dueAt = 5) ∨ (b.id = 21 ∧ b.dueAt = 6) := by
    decide
  rcases hids f hf with ⟨hid, -⟩ | ⟨-, hdue⟩
  · rw [if_pos hid] at hfail
    cases hfail
  · rcases hids a ha with ⟨-, hdue'⟩ | ⟨hid, -⟩
    · rw [hdue, hdue']
      decide
    · rw [if_neg (by rw [hid]; decide)] at hok
      exact absurd rfl hok

/-- One unreachable cluster's attempt comes first, and the other cluster's is not enqueued. -/
theorem dispatch_stopped_by_another_cluster : ¬ ∀ dispatched p,
    DispatchDue (fun id => if id = 21 then some 31 else none) "up" 10 2 (twoClusters "down" "up") dispatched p →
      Isolated (fun id => if id = 21 then some 31 else none) 10 (twoClusters "down" "up") p := by
  intro hall
  have hfirst : (twoClusters "down" "up").IsFirst 10 (dueAttempt 11 5 "down") := by
    refine ⟨List.mem_cons_self, ?_⟩
    decide
  have hpass : DispatchDue (fun id => if id = 21 then some 31 else none) "up" 10 2 (twoClusters "down" "up") 0
      ⟨twoClusters "down" "up", []⟩ := .broke (by decide) (by exact nofun) (.raised hfirst rfl)
  have hmem : dueAttempt 21 6 "up" ∈ (twoClusters "down" "up").dueRows 10 :=
    List.mem_cons_of_mem _ List.mem_cons_self
  obtain ⟨hsent, -⟩ := (hall 0 _ hpass _ hmem).1 31 rfl
  cases hsent

end DispatchPass
end Qraft
