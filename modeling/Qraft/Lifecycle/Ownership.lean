import Qraft.Lifecycle.Messages

/-! The attempt behind a message, from one state of the table to a later one. -/
namespace Qraft
open QraftTaskAttempt

namespace TaskStore

def Behind (st : TaskStore) (q : Q2TaskId) (a : QraftTaskAttempt) : Prop :=
  ∃ t ∈ st.tasks, a ∈ t.attempts ∧ a.q2TaskId = some q

theorem matchesMessage_iff {st : TaskStore} {q : Q2TaskId} {p : QraftTaskAttempt → Bool} :
    st.matchesMessage q p = true ↔ ∃ a, st.Behind q a ∧ p a = true := by
  simp only [matchesMessage, List.any_eq_true, Bool.and_eq_true, decide_eq_true_eq, Behind]
  constructor
  · rintro ⟨t, ht, a, ha, hq, hp⟩
    exact ⟨a, ⟨t, ht, ha, hq⟩, hp⟩
  · rintro ⟨a, ⟨t, ht, ha, hq⟩, hp⟩
    exact ⟨t, ht, a, ha, hq, hp⟩

theorem Distinct.behind_unique {st : TaskStore} (h : st.Distinct) {q : Q2TaskId}
    {a b : QraftTaskAttempt} (ha : st.Behind q a) (hb : st.Behind q b) : a = b := by
  obtain ⟨t, ht, ham, hq⟩ := ha
  obtain ⟨u, hu, hbm, hq'⟩ := hb
  exact (h.eq_of_message ht ham hu hbm hq hq').2

/-- No attempt will ever be behind this message. -/
def Unowned (st : TaskStore) (q : Q2TaskId) : Prop := q < st.nextId ∧ ∀ a, ¬ st.Behind q a

/-- Messages stay with their attempts, and what is stamped on those stays stamped. -/
structure Continues (st st' : TaskStore) : Prop where
  nextId : st.nextId ≤ st'.nextId
  back : ∀ q a', st'.Behind q a' → q < st.nextId → ∃ a, st.Behind q a ∧
    (a.success ≠ none → a'.success ≠ none) ∧ (a.dateStarted ≠ none → a'.dateStarted ≠ none)

theorem Continues.refl (st : TaskStore) : Continues st st :=
  ⟨Nat.le_refl _, fun _ a ha _ => ⟨a, ha, id, id⟩⟩

theorem Unowned.continues {st st' : TaskStore} {q : Q2TaskId} (h : st.Unowned q)
    (hc : Continues st st') : st'.Unowned q := by
  refine ⟨Nat.lt_of_lt_of_le h.1 hc.nextId, fun a' ha' => ?_⟩
  obtain ⟨a, ha, -⟩ := hc.back q a' ha' h.1
  exact h.2 a ha

/-- A step of the table that begins no execution. -/
structure Keeps (st st' : TaskStore) : Prop where
  distinct : st'.Distinct
  nextId : st.nextId ≤ st'.nextId
  unrun : ∀ t ∈ st'.tasks, ∀ a ∈ t.attempts, a.q2TaskId = none → a.executionCount = 0
  back : ∀ q a', st'.Behind q a' →
    (∃ a, st.Behind q a ∧ SameRuns a a' ∧ (a.success ≠ none → a'.success ≠ none)) ∨
    (st.nextId ≤ q ∧ a'.executionCount = 0)

theorem Keeps.continues {st st' : TaskStore} (h : Keeps st st') : Continues st st' := by
  refine ⟨h.nextId, ?_⟩
  intro q a' ha' hq
  rcases h.back q a' ha' with ⟨a, ha, hs, hsu⟩ | ⟨hle, _⟩
  · exact ⟨a, ha, hsu, fun hd => by rwa [hs.2]⟩
  · exact absurd hq (Nat.not_lt.mpr hle)

/-- What a row without a message has not been through. -/
theorem RowsLater.keeps {st st' : TaskStore} (hd : st'.Distinct) (hn : st.nextId ≤ st'.nextId)
    (hr : RowsLater st.nextId SameRuns st st')
    (hun : ∀ t ∈ st.tasks, ∀ a ∈ t.attempts, a.q2TaskId = none → a.executionCount = 0) :
    Keeps st st' := by
  refine ⟨hd, hn, ?_, ?_⟩
  · intro t' ht' a' ha' hq
    rcases hr.origin t' ht' a' ha' with ⟨t, ht, -, a, ha, hl, hs⟩ | hu
    · rw [hs.1]
      apply hun t ht a ha
      rcases hl.message with he | ⟨hnone, -⟩
      · rw [← he, hq]
      · exact hnone
    · exact hu.2.1
  · rintro q a' ⟨t', ht', ha', hq⟩
    rcases hr.origin t' ht' a' ha' with ⟨t, ht, -, a, ha, hl, hs⟩ | hu
    · rcases hl.message with he | ⟨hnone, hfresh⟩
      · exact .inl ⟨a, ⟨t, ht, ha, he ▸ hq⟩, hs, hl.success⟩
      · refine .inr ⟨Nat.le_of_eq (Option.some.inj (hfresh.symm.trans hq)), ?_⟩
        rw [hs.1]
        exact hun t ht a ha hnone
    · exact .inr ⟨hu.2.2.2 q hq, hu.2.1⟩

/-- The rows a lease write leaves. -/
theorem behind_lease {st : TaskStore} {limit : Nat} {q₀ : Q2TaskId}
    {w : LeaseWrite} {now : Time} {q : Q2TaskId} {a' : QraftTaskAttempt}
    (ha' : (st.lease limit q₀ w now).1.Behind q a') :
    ∃ a, st.Behind q a ∧ a' = leasedRow limit q₀ w now a := by
  obtain ⟨t', ht', ham, hq⟩ := ha'
  obtain ⟨t, ht, rfl⟩ := List.mem_map.mp ht'
  obtain ⟨a, ha, rfl⟩ := Rows.mem_updateWhere.mp ham
  refine ⟨a, ⟨t, ht, ha, ?_⟩, rfl⟩
  rw [← hq]
  split
  · cases w <;> rfl
  · rfl

theorem continues_lease (st : TaskStore) (limit : Nat) (q₀ : Q2TaskId) (w : LeaseWrite) (now : Time) :
    Continues st (st.lease limit q₀ w now).1 := by
  refine ⟨Nat.le_refl _, ?_⟩
  intro q a' ha' _
  obtain ⟨a, ha, rfl⟩ := behind_lease ha'
  obtain ⟨hs, hd⟩ := leasedRow_stamps limit q₀ w now a
  exact ⟨a, ha, fun hn => by rwa [hs], hd⟩

end TaskStore

namespace Lifecycle
open TaskStore

theorem step_nextId {limit : Nat} {l l' : Lifecycle} {env : Env} {e : LifecycleEvent}
    (h : l.step limit env e = some l') : l.store.nextId ≤ l'.store.nextId := by
  have heff := step_effect h
  generalize l'.store = st at heff
  cases heff with
  | idle => exact Nat.le_refl _
  | leased q w => exact Nat.le_refl _
  | rearmed cutoff => exact Nat.le_refl _
  | written ht hm => exact Nat.le_succ _
  | enqueued metadata cluster trace => exact Nat.le_add_right _ _
  | scheduled hok => exact Nat.le_add_right _ _

/-- What any step of the table makes of the attempts behind the messages already issued. -/
theorem step_continues {limit : Nat} {l l' : Lifecycle} {env : Env} {e : LifecycleEvent}
    (h : l.store.Distinct) (hstep : l.step limit env e = some l') : Continues l.store l'.store := by
  cases hb : begins e with
  | false =>
    refine ⟨step_nextId hstep, ?_⟩
    rintro q a' ⟨t', ht', ha', hq⟩ hlt
    rcases (step_rows h hstep).2.origin t' ht' a' ha' with ⟨t, ht, -, a, ha, hl, hs⟩ | hun
    · rcases hl.message with he | ⟨-, hfresh⟩
      · exact ⟨a, ⟨t, ht, ha, he ▸ hq⟩, hl.success, fun hd => by rwa [(hs hb).2]⟩
      · obtain rfl : l.store.nextId = q := Option.some.inj (hfresh.symm.trans hq)
        exact absurd hlt (Nat.lt_irrefl _)
    · exact absurd hlt (Nat.not_lt.mpr (hun.2.2.2 q hq))
  | true =>
    cases e with
    | lease q w =>
      cases hstep
      exact continues_lease l.store limit q w env.now
    | _ => cases hb

end Lifecycle

end Qraft
