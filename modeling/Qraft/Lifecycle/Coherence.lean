import Qraft.Foundations.AttemptHistory
import Qraft.Lifecycle.System

/-! One task and its attempts. A coherent task has its attempts numbered in order, all
but the last decided, and a status that says where the last one stands. Each operation
on a task keeps it so, and moves its history by one step. -/
namespace Qraft
open AttemptHistory

structure Outcome where
  success : Bool
  exceptionClass : Option String
  deriving DecidableEq

def Outcome.Failed (o : Outcome) : Prop := o.success = false

def QraftTaskAttempt.outcome (a : QraftTaskAttempt) : Option Outcome :=
  a.success.map fun success => { success, exceptionClass := a.exceptionClass }

namespace TaskStatus

/-- The outcome of the latest attempt that a status goes with. -/
def verdict : TaskStatus → Option Bool
  | pending | running => none
  | succeeded => some true
  | failed | exhausted => some false

def stage : TaskStatus → Stage
  | pending => .waiting
  | running => .running
  | _ => .settled

theorem stage_settled_iff {s : TaskStatus} : s.stage = .settled ↔ s.verdict ≠ none := by
  cases s <;> simp [stage, verdict]

end TaskStatus

namespace QraftTask

/-- The decided attempts of a task, and what becomes of it next. -/
def history (t : QraftTask) : History Outcome :=
  { past := t.attempts.filterMap fun a => a.outcome, stage := t.status.stage }

/-- `max_attempts` of the policy; without one there is no retry. -/
def attemptLimit (t : QraftTask) : Nat := t.retryPolicy.elim 1 fun p => p.maxAttempts.toNat

/-- The columns of an attempt its history depends on. -/
def SameRow (a b : QraftTaskAttempt) : Prop :=
  b.id = a.id ∧ b.attemptNumber = a.attemptNumber ∧ b.state = a.state ∧ b.q2TaskId = a.q2TaskId ∧
    b.success = a.success ∧ b.exceptionClass = a.exceptionClass

/-- The attempts before the latest: decided, and handed to the broker once. -/
def Decided (a : QraftTaskAttempt) : Prop :=
  a.success ≠ none ∧ a.state = .queued ∧ a.q2TaskId ≠ none

structure Coherent (t : QraftTask) : Prop where
  numbered : (t.attempts.map fun a => a.attemptNumber) = List.range' 1 t.attempts.length
  ids : (t.attempts.map fun a => a.id).Nodup
  latest : ∃ done a, t.attempts = done ++ [a] ∧ (∀ b ∈ done, Decided b) ∧
    a.success = t.status.verdict ∧ (a.state = .scheduled ↔ t.status = .pending) ∧
    (a.q2TaskId = none ↔ t.status = .pending)

/-- One step of a task's history, or its reopening, which takes a requeue. -/
inductive Move (requeued : Bool) (t t' : QraftTask) : Prop where
  | step (h : Step Outcome.Failed t.attemptLimit t.history t'.history)
  | reopen (hr : requeued = true) (hs : t.status.verdict ≠ none)
      (hp : t'.history = { t.history with stage := .waiting })

theorem outcome_eq_none {a : QraftTaskAttempt} : a.outcome = none ↔ a.success = none := by
  simp [QraftTaskAttempt.outcome]

theorem outcome_eq_some {a : QraftTaskAttempt} {o : Outcome} (h : a.outcome = some o) :
    a.success = some o.success ∧ a.exceptionClass = o.exceptionClass := by
  obtain ⟨b, hb, rfl⟩ := Option.map_eq_some_iff.mp h
  exact ⟨hb, rfl⟩

/-- Where all but the last are decided, the history lists the attempts in their places. -/
private theorem filterMap_getElem? {ρ ω : Type*} {f : ρ → Option ω} {done : List ρ} {a : ρ}
    (hd : ∀ b ∈ done, f b ≠ none) (i : Nat) :
    ((done ++ [a]).filterMap f)[i]? = (done ++ [a])[i]?.bind f := by
  induction done generalizing i with
  | nil =>
    cases hf : f a with
    | none => cases i <;> simp [hf]
    | some o => cases i <;> simp [hf]
  | cons b done ih =>
    obtain ⟨o, ho⟩ := Option.ne_none_iff_exists'.mp (hd b List.mem_cons_self)
    have hrest := ih (fun c hc => hd c (List.mem_cons_of_mem _ hc))
    cases i with
    | zero => simp [ho]
    | succ i => simpa [ho] using hrest i

namespace Coherent
variable {t t' : QraftTask}

theorem number_of_getElem? (h : t.Coherent) {i : Nat} {a : QraftTaskAttempt}
    (ha : t.attempts[i]? = some a) : a.attemptNumber = i + 1 := by
  have hlt : i < t.attempts.length := (List.getElem?_eq_some_iff.mp ha).1
  have hn := congrArg (fun l => l[i]?) h.numbered
  simp only [List.getElem?_map, ha, Option.map_some, List.getElem?_range', hlt] at hn
  simp only [Option.some.injEq] at hn
  omega

theorem number_bounds (h : t.Coherent) {a : QraftTaskAttempt} (ha : a ∈ t.attempts) :
    1 ≤ a.attemptNumber ∧ a.attemptNumber ≤ t.attempts.length := by
  obtain ⟨i, hi, rfl⟩ := List.mem_iff_getElem.mp ha
  have hn := h.number_of_getElem? (List.getElem?_eq_getElem hi)
  omega

theorem eq_of_number (h : t.Coherent) {a b : QraftTaskAttempt} (ha : a ∈ t.attempts)
    (hb : b ∈ t.attempts) (hn : a.attemptNumber = b.attemptNumber) : a = b := by
  apply List.inj_on_of_nodup_map _ ha hb hn
  rw [h.numbered]
  exact List.nodup_range'

theorem eq_of_id (h : t.Coherent) {a b : QraftTaskAttempt} (ha : a ∈ t.attempts)
    (hb : b ∈ t.attempts) (hid : a.id = b.id) : a = b :=
  Rows.eq_of_key_eq h.ids ha hb hid

/-- The history holds the outcome of each attempt under its number. -/
theorem outcome_eq (h : t.Coherent) {a : QraftTaskAttempt} (ha : a ∈ t.attempts) :
    t.history.past[a.attemptNumber - 1]? = a.outcome := by
  obtain ⟨done, last, hl, hd, _⟩ := h.latest
  obtain ⟨i, hi, rfl⟩ := List.mem_iff_getElem.mp ha
  have hn := h.number_of_getElem? (List.getElem?_eq_getElem hi)
  have hdec : ∀ b ∈ done, b.outcome ≠ none := fun b hb => mt outcome_eq_none.mp (hd b hb).1
  have hget := filterMap_getElem? (a := last) hdec i
  rw [← hl, List.getElem?_eq_getElem hi] at hget
  rw [hn]
  exact hget

/-- An undecided attempt is the latest one. -/
theorem undecided (h : t.Coherent) {a : QraftTaskAttempt} (ha : a ∈ t.attempts)
    (hn : a.success = none) :
    t.status.verdict = none ∧ a.attemptNumber = t.attempts.length ∧
      (a.state = .scheduled ↔ t.status = .pending) ∧ (a.q2TaskId = none ↔ t.status = .pending) ∧
      ∃ done, t.attempts = done ++ [a] ∧ ∀ b ∈ done, Decided b := by
  obtain ⟨done, last, hl, hd, hv, hst, hq⟩ := h.latest
  have hlast : a = last := by
    rw [hl, List.mem_append, List.mem_singleton] at ha
    exact ha.resolve_left fun hin => (hd a hin).1 hn
  subst hlast
  refine ⟨hv ▸ hn, ?_, hst, hq, done, hl, hd⟩
  have hi : t.attempts[done.length]? = some a := by simp [hl]
  rw [h.number_of_getElem? hi]
  simp [hl]

theorem ne_nil (h : t.Coherent) : t.attempts ≠ [] := by
  obtain ⟨done, a, hl, _⟩ := h.latest
  simp [hl]

/-- The count of the history is the number of attempts. -/
theorem length_eq (h : t.Coherent) : t.attempts.length = t.history.count := by
  obtain ⟨done, a, hl, hd, hv, _⟩ := h.latest
  have hdone : (done.filterMap fun b => b.outcome).length = done.length := by
    apply List.filterMap_length_eq_length.mpr
    intro b hb
    exact Option.isSome_iff_ne_none.mpr (mt outcome_eq_none.mp (hd b hb).1)
  have hpast : t.history.past.length = done.length + (if a.success = none then 0 else 1) := by
    simp only [history, hl, List.filterMap_append, List.length_append, hdone]
    cases hs : a.success with
    | none => simp [QraftTaskAttempt.outcome, hs]
    | some b => simp [QraftTaskAttempt.outcome, hs]
  have hstage : t.history.stage = .settled ↔ a.success ≠ none := by
    rw [hv]
    exact TaskStatus.stage_settled_iff
  rw [History.count, hpast, hl, List.length_append, List.length_singleton]
  by_cases hs : a.success = none
  · have : t.history.stage ≠ .settled := fun hc => hstage.mp hc hs
    simp [hs, this]
  · simp [hs, hstage.mpr hs]

/-- A write to other columns changes nothing that matters here. -/
theorem quiet (h : t.Coherent) {f : QraftTaskAttempt → QraftTaskAttempt}
    (hf : ∀ a ∈ t.attempts, SameRow a (f a)) (hs : t'.status = t.status)
    (ha : t'.attempts = t.attempts.map f) : t'.Coherent ∧ t'.history = t.history := by
  have hnum : (t'.attempts.map fun a => a.attemptNumber) = t.attempts.map fun a => a.attemptNumber := by
    rw [ha, List.map_map]
    exact List.map_congr_left fun a hm => (hf a hm).2.1
  have hids : (t'.attempts.map fun a => a.id) = t.attempts.map fun a => a.id := by
    rw [ha, List.map_map]
    exact List.map_congr_left fun a hm => (hf a hm).1
  refine ⟨⟨?_, hids ▸ h.ids, ?_⟩, ?_⟩
  · rw [hnum, h.numbered, ha, List.length_map]
  · obtain ⟨done, a, hl, hd, hv, hst, hq⟩ := h.latest
    have hsame : ∀ b ∈ done ++ [a], SameRow b (f b) := hl ▸ hf
    obtain ⟨_, _, hsa, hqa, hsu, _⟩ := hsame a (by simp)
    refine ⟨done.map f, f a, by simp [ha, hl], ?_, ?_, ?_, ?_⟩
    · intro b hb
      obtain ⟨c, hc, rfl⟩ := List.mem_map.mp hb
      obtain ⟨_, _, hsc, hqc, hsuc, _⟩ := hsame c (by simp [hc])
      obtain ⟨h₁, h₂, h₃⟩ := hd c hc
      exact ⟨hsuc ▸ h₁, hsc ▸ h₂, hqc ▸ h₃⟩
    · rw [hsu, hs, hv]
    · rw [hsa, hs, hst]
    · rw [hqa, hs, hq]
  · have hout : t'.history.past = t.history.past := by
      simp only [history, ha, List.filterMap_map]
      apply List.filterMap_congr
      intro a hm
      obtain ⟨_, _, _, _, hsu, hex⟩ := hf a hm
      simp only [Function.comp, QraftTaskAttempt.outcome, hsu, hex]
    rw [history, hs]
    exact congrArg (History.mk · _) hout

/-- A write to the latest attempt. -/
private theorem updateAttempt_latest (h : t.Coherent) {done : List QraftTaskAttempt}
    {a : QraftTaskAttempt} (hl : t.attempts = done ++ [a]) (f : QraftTaskAttempt → QraftTaskAttempt) :
    (t.updateAttempt a.id f).attempts = done ++ [f a] := by
  have hids := h.ids
  rw [hl, List.map_append, List.nodup_append] at hids
  have hne : ∀ b ∈ done, b.id ≠ a.id := fun b hb =>
    hids.2.2 b.id (List.mem_map_of_mem hb) a.id (by simp)
  have hdone : Rows.updateWhere (fun b => b.id = a.id) f done = done := by
    apply Rows.updateWhere_eq_self
    intro b hb hp
    exact absurd (of_decide_eq_true hp) (hne b hb)
  have hlast : Rows.updateWhere (fun b => b.id = a.id) f [a] = [f a] := by simp [Rows.updateWhere]
  rw [updateAttempt, hl, Rows.updateWhere, List.map_append]
  exact congrArg₂ (· ++ ·) hdone hlast

/-- Rewriting the latest attempt keeps the order, the ids and the earlier attempts. -/
private theorem of_latest (h : t.Coherent) {done : List QraftTaskAttempt} {a a' : QraftTaskAttempt}
    (hl : t.attempts = done ++ [a]) (hd : ∀ b ∈ done, Decided b) (ht : t'.attempts = done ++ [a'])
    (hid : a'.id = a.id) (hn : a'.attemptNumber = a.attemptNumber)
    (hv : a'.success = t'.status.verdict) (hst : a'.state = .scheduled ↔ t'.status = .pending)
    (hq : a'.q2TaskId = none ↔ t'.status = .pending) : t'.Coherent := by
  refine ⟨?_, ?_, done, a', ht, hd, hv, hst, hq⟩
  · have hnum := h.numbered
    simp only [hl, ht, List.map_append, List.map_cons, List.map_nil, List.length_append,
      List.length_singleton, hn] at hnum ⊢
    exact hnum
  · have hids := h.ids
    simp only [hl, ht, List.map_append, List.map_cons, List.map_nil, hid] at hids ⊢
    exact hids

/-- The undecided attempt of a message is decided, and the status says so. -/
theorem decided (h : t.Coherent) {a : QraftTaskAttempt} (ha : a ∈ t.attempts)
    (hn : a.success = none) (hq : a.q2TaskId ≠ none) {success : Bool} {exc : Option String}
    {completed now : Time} {s : TaskStatus} (hs : s.verdict = some success)
    (ht : t' = (t.updateAttempt a.id fun b => b.decide success exc completed).setStatus s now) :
    t.status = .running ∧ t'.Coherent ∧
      t'.history = ⟨t.history.past ++ [{ success, exceptionClass := exc }], .settled⟩ := by
  obtain ⟨hv, -, hst, hq', done, hl, hd⟩ := h.undecided ha hn
  have hpending : t.status ≠ .pending := fun hp => hq (hq'.mpr hp)
  have hrunning : t.status = .running := by
    cases hs' : t.status <;> simp_all [TaskStatus.verdict]
  have hp' : s ≠ .pending := by
    rintro rfl
    cases hs
  have hrows : t'.attempts = done ++ [a.decide success exc completed] := by
    rw [ht]
    exact updateAttempt_latest h hl _
  have hstatus : t'.status = s := by rw [ht, setStatus_status]
  refine ⟨hrunning, of_latest h hl hd hrows rfl rfl ?_ ?_ ?_, ?_⟩
  · rw [hstatus, hs]
    rfl
  · rw [hstatus]
    exact iff_of_false (fun hc => hpending (hst.mp hc)) hp'
  · rw [hstatus]
    exact iff_of_false hq hp'
  · have hstage : t'.status.stage = .settled := by
      rw [hstatus, TaskStatus.stage_settled_iff, hs]
      simp
    simp only [history, hrows, hl, hstage, List.filterMap_append]
    simp [QraftTaskAttempt.outcome, QraftTaskAttempt.decide, hn]

/-- One more attempt after a decided one. -/
theorem scheduled (h : t.Coherent) (hv : t.status.verdict ≠ none) {id : AttemptId}
    (hid : ∀ a ∈ t.attempts, a.id ≠ id) {number : Nat} (hn : number ≤ t.attempts.length + 1)
    (hpos : 1 ≤ number) {notBefore : Time} {cluster : Option String} {now : Time}
    (hok : t.scheduleAttempt id number notBefore cluster now = .ok t') :
    number = t.attempts.length + 1 ∧ t'.Coherent ∧
      t'.history = { t.history with stage := .waiting } := by
  obtain ⟨hnew, a, rfl, rfl, hst, hsu, hq, -, rfl⟩ := scheduleAttempt_ok hok
  have hnum : a.attemptNumber = t.attempts.length + 1 := by
    by_contra hne
    have hlt : a.attemptNumber - 1 < t.attempts.length := by omega
    have hget := h.number_of_getElem? (List.getElem?_eq_getElem hlt)
    exact hnew _ (List.getElem_mem hlt) (by omega)
  have hpending : t.status ≠ .pending := by
    intro hp
    rw [hp] at hv
    exact hv rfl
  refine ⟨hnum, ⟨?_, ?_, t.attempts, a, rfl, ?_, hsu, iff_of_true hst rfl, iff_of_true hq rfl⟩, ?_⟩
  · simp only [List.map_append, h.numbered, List.map_cons, List.map_nil, hnum, List.length_append,
      List.length_singleton]
    rw [List.range'_1_concat, Nat.add_comm 1]
  · rw [List.map_append, List.nodup_append]
    refine ⟨h.ids, by simp, ?_⟩
    intro x hx y hy
    obtain ⟨b, hb, rfl⟩ := List.mem_map.mp hx
    rw [List.map_singleton, List.mem_singleton] at hy
    exact hy ▸ hid b hb
  · obtain ⟨done, last, hl, hd, hlv, hls, hlq⟩ := h.latest
    intro b hb
    rw [hl, List.mem_append, List.mem_singleton] at hb
    rcases hb with hb | rfl
    · exact hd b hb
    · refine ⟨hlv ▸ hv, ?_, mt hlq.mp hpending⟩
      cases hbs : b.state with
      | scheduled => exact absurd (hls.mp hbs) hpending
      | queued => rfl
  · simp [history, QraftTaskAttempt.outcome, hsu, TaskStatus.stage]

/-- A claim hands over the latest attempt. -/
theorem claimed (h : t.Coherent) {id : AttemptId} {cutoff claimedAt : Time} {q2TaskId : Q2TaskId}
    {cluster : String} (hok : t.claimAndEnqueue id cutoff claimedAt q2TaskId cluster = some t') :
    t.status = .pending ∧ t'.Coherent ∧ t'.history = ⟨t.history.past, .running⟩ := by
  obtain ⟨⟨a, ha, rfl, hst⟩, ht⟩ := claimAndEnqueue_eq_some hok
  obtain ⟨done, last, hl, hd, hv, hls, hlq⟩ := h.latest
  have hlast : a = last := by
    rw [hl, List.mem_append, List.mem_singleton] at ha
    refine ha.resolve_left fun hin => ?_
    have := (hd a hin).2.1
    rw [hst] at this
    cases this
  subst hlast
  have hpending := hls.mp hst
  have hrows : t'.attempts = done ++ [a.enqueue claimedAt q2TaskId cluster] := by
    rw [ht]
    exact updateAttempt_latest h hl _
  have hstatus : t'.status = .running := by
    rw [ht, setStatus_status, if_pos hpending]
  refine ⟨hpending, of_latest h hl hd hrows rfl rfl ?_ ?_ ?_, ?_⟩
  · rw [hstatus, QraftTaskAttempt.enqueue, hv, hpending]
    rfl
  · rw [hstatus]
    exact iff_of_false (by simp [QraftTaskAttempt.enqueue]) (by simp)
  · rw [hstatus]
    exact iff_of_false (by simp [QraftTaskAttempt.enqueue]) (by simp)
  · have hnone : a.success = none := by
      rw [hv, hpending]
      rfl
    simp only [history, hrows, hl, hstatus, List.filterMap_append]
    simp [QraftTaskAttempt.outcome, QraftTaskAttempt.enqueue, hnone, TaskStatus.stage]

end Coherent

end QraftTask
end Qraft
