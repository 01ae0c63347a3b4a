import Qraft.Lifecycle.Effects

/-! Attempts and their messages in any run: an attempt has one row, a message id belongs to
one attempt, and neither an outcome nor a first heartbeat is ever taken back. -/
namespace Qraft
open QraftTask

/-- What no write but a lease's or a claim's changes of an attempt. -/
def QraftTaskAttempt.Holds (a b : QraftTaskAttempt) : Prop :=
  b.id = a.id ∧ b.q2TaskId = a.q2TaskId ∧ b.state = a.state ∧ b.executionCount = a.executionCount ∧
    b.dateStarted = a.dateStarted ∧ b.heartbeatAt = a.heartbeatAt ∧
    (a.success ≠ none → b.success ≠ none)

/-- An attempt row before and after a step; `fresh` is the id the step could draw. -/
structure QraftTaskAttempt.Later (fresh : Nat) (a b : QraftTaskAttempt) : Prop where
  id : b.id = a.id
  success : a.success ≠ none → b.success ≠ none
  heartbeat : a.heartbeatAt ≠ none → b.heartbeatAt ≠ none
  message : b.q2TaskId = a.q2TaskId ∨ (a.q2TaskId = none ∧ b.q2TaskId = some fresh)

/-- The columns that count executions. -/
def QraftTaskAttempt.SameRuns (a b : QraftTaskAttempt) : Prop :=
  b.executionCount = a.executionCount ∧ b.dateStarted = a.dateStarted

def QraftTaskAttempt.Unseen (fresh : Nat) (a : QraftTaskAttempt) : Prop :=
  fresh ≤ a.id ∧ a.executionCount = 0 ∧ a.dateStarted = none ∧
    ∀ q, a.q2TaskId = some q → fresh ≤ q

namespace QraftTaskAttempt

theorem Holds.refl (a : QraftTaskAttempt) : a.Holds a := ⟨rfl, rfl, rfl, rfl, rfl, rfl, fun h => h⟩

theorem Holds.trans {a b c : QraftTaskAttempt} (h : a.Holds b) (h' : b.Holds c) : a.Holds c := by
  obtain ⟨h₁, h₂, h₃, h₄, h₅, h₆, h₇⟩ := h
  obtain ⟨k₁, k₂, k₃, k₄, k₅, k₆, k₇⟩ := h'
  exact ⟨k₁.trans h₁, k₂.trans h₂, k₃.trans h₃, k₄.trans h₄, k₅.trans h₅, k₆.trans h₆, fun h => k₇ (h₇ h)⟩

theorem Holds.later {a b : QraftTaskAttempt} (h : a.Holds b) (fresh : Nat) : Later fresh a b := by
  obtain ⟨h₁, h₂, -, -, -, h₆, h₇⟩ := h
  exact ⟨h₁, h₇, fun hb => by rwa [h₆], .inl h₂⟩

theorem Later.refl (fresh : Nat) (a : QraftTaskAttempt) : Later fresh a a := (Holds.refl a).later fresh

end QraftTaskAttempt

namespace QraftTask
open QraftTaskAttempt

/-- A task row before and after a step: its attempts go on, one may be claimed under the
fresh id, and one more may follow. -/
structure Carries (fresh : Nat) (t t' : QraftTask) : Prop where
  id : t'.id = t.id
  rows : ∃ f new, t'.attempts = t.attempts.map f ++ new ∧
    (∀ a ∈ t.attempts, Later fresh a (f a) ∧ SameRuns a (f a) ∧
      ((f a).state = .scheduled → (f a).q2TaskId = a.q2TaskId ∧ a.state = .scheduled)) ∧
    (∀ a ∈ t.attempts, ∀ b ∈ t.attempts, a.q2TaskId ≠ (f a).q2TaskId → b.q2TaskId ≠ (f b).q2TaskId →
      a = b) ∧
    (new = [] ∨ ∃ b, new = [b] ∧ b.id = fresh ∧ b.q2TaskId = none ∧ b.executionCount = 0 ∧
      b.dateStarted = none)

theorem updateAttempt_attempts (t : QraftTask) (id : AttemptId)
    (f : QraftTaskAttempt → QraftTaskAttempt) : (t.updateAttempt id f).attempts =
      t.attempts.map fun a => if decide (a.id = id) = true then f a else a := rfl

/-- A write that holds on to every row. -/
theorem Carries.of_holds {fresh : Nat} {t t' : QraftTask} {f : QraftTaskAttempt → QraftTaskAttempt}
    (hid : t'.id = t.id) (hf : ∀ a, Holds a (f a)) (ht : t'.attempts = t.attempts.map f) :
    Carries fresh t t' := by
  refine ⟨hid, f, [], by simp [ht], ?_, ?_, .inl rfl⟩
  · intro a _
    obtain ⟨-, h₂, h₃, h₄, h₅, -⟩ := hf a
    exact ⟨(hf a).later fresh, ⟨h₄, h₅⟩, fun hs => ⟨h₂, h₃ ▸ hs⟩⟩
  · intro a _ b _ ha
    exact absurd (hf a).2.1.symm ha

/-- Such a write, an attempt scheduled after it, and another such write. -/
theorem Carries.of_scheduled {t u v t' : QraftTask} {f g : QraftTaskAttempt → QraftTaskAttempt}
    {id : AttemptId} {number : Nat} {notBefore : Time} {cluster : Option String} {now : Time}
    (hf : ∀ a, Holds a (f a)) (hid : u.id = t.id) (hu : u.attempts = t.attempts.map f)
    (h : u.scheduleAttempt id number notBefore cluster now = .ok v)
    (hg : ∀ a, Holds a (g a)) (hid' : t'.id = v.id) (ht : t'.attempts = v.attempts.map g) :
    Carries id t t' := by
  obtain ⟨hv, hva⟩ := scheduleAttempt_attempts h
  refine ⟨hid'.trans (hv.trans hid), g ∘ f, [g (u.newAttempt id number notBefore cluster now none none)],
    by rw [ht, hva, hu, List.map_append, List.map_map, List.map_singleton], ?_, ?_, .inr ⟨_, rfl, ?_⟩⟩
  · intro a _
    have hh := (hf a).trans (hg (f a))
    have hlater := hh.later id
    obtain ⟨-, h₂, h₃, h₄, h₅, -⟩ := hh
    exact ⟨hlater, ⟨h₄, h₅⟩, fun hs => ⟨h₂, h₃ ▸ hs⟩⟩
  · intro a _ b _ ha
    exact absurd ((hf a).trans (hg (f a))).2.1.symm ha
  · obtain ⟨h₁, h₂, _, h₄, h₅, _, _⟩ := hg (u.newAttempt id number notBefore cluster now none none)
    exact ⟨h₁, h₂, h₄, h₅⟩

/-- A write to one row that holds on to it. -/
theorem holds_ite (id : AttemptId) {f : QraftTaskAttempt → QraftTaskAttempt} (hf : ∀ a, Holds a (f a))
    (a : QraftTaskAttempt) : Holds a (if decide (a.id = id) = true then f a else a) := by
  split
  · exact hf a
  · exact .refl a

theorem holds_decide (success : Bool) (exc : Option String) (completed : Time) (a : QraftTaskAttempt) :
    Holds a (a.decide success exc completed) :=
  ⟨rfl, rfl, rfl, rfl, rfl, rfl, fun _ => by simp [QraftTaskAttempt.decide]⟩

theorem holds_routed (a : QraftTaskAttempt) : Holds a { a with routed := true } :=
  ⟨rfl, rfl, rfl, rfl, rfl, rfl, fun h => h⟩

theorem Resolved.carries {t t' : QraftTask} {id : AttemptId} {number : Nat} {newId : AttemptId}
    {now : Time} {routing : Routing} (h : Resolved t id number newId now t' routing) :
    Carries newId t t' := by
  cases h with
  | @decided _ u success exc completed s hs hu ht =>
    have hd := holds_ite id (holds_decide success exc completed)
    rcases ht with rfl | rfl
    · exact .of_holds (by rw [hu]; rfl) hd (by rw [hu]; rfl)
    · refine .of_holds (by rw [hu]; rfl) (fun a => (hd a).trans (holds_ite id holds_routed _)) ?_
      rw [hu, markRouted, updateAttempt_attempts, setStatus_attempts, updateAttempt_attempts,
        List.map_map]
      rfl
  | @retried u exc completed policy notBefore cluster hp hl hu =>
    have hd := holds_ite id (holds_decide false exc completed)
    exact .of_scheduled (u := t.updateAttempt id fun a => a.decide false exc completed) hd rfl rfl hu
      (holds_ite id holds_routed) rfl rfl

theorem Carries.refl (fresh : Nat) (t : QraftTask) : Carries fresh t t :=
  .of_holds rfl Holds.refl (List.map_id' _).symm

theorem Carries.of_claim {t t' : QraftTask} {id : AttemptId} {cutoff claimedAt : Time}
    {q2TaskId : Q2TaskId} {cluster : String} (hids : (t.attempts.map fun a => a.id).Nodup)
    (hun : ∀ a ∈ t.attempts, a.state = .scheduled → a.q2TaskId = none)
    (h : t.claimAndEnqueue id cutoff claimedAt q2TaskId cluster = some t') : Carries q2TaskId t t' := by
  obtain ⟨⟨c, hc, hcid, hcs⟩, rfl⟩ := claimAndEnqueue_eq_some h
  have hsel : ∀ a ∈ t.attempts, a.id = id → a = c := fun a ha hid =>
    Rows.eq_of_key_eq hids ha hc (hid.trans hcid.symm)
  refine ⟨rfl, _, [], by rw [List.append_nil]; rfl, ?_, ?_, .inl rfl⟩
  · intro a ha
    split
    · rename_i hid
      have hac := hsel a ha (of_decide_eq_true hid)
      refine ⟨⟨rfl, fun h => h, fun h => h, .inr ⟨?_, rfl⟩⟩, ⟨rfl, rfl⟩, fun hs => ?_⟩
      · exact hun a ha (hac ▸ hcs)
      · simp [QraftTaskAttempt.enqueue] at hs
    · exact ⟨.refl _ _, ⟨rfl, rfl⟩, fun hs => ⟨rfl, hs⟩⟩
  · intro a ha b hb hqa hqb
    have hid : ∀ x : QraftTaskAttempt, x.q2TaskId ≠ (if decide (x.id = id) = true then
        x.enqueue claimedAt q2TaskId cluster else x).q2TaskId → x.id = id := by
      intro x hx
      by_contra hne
      simp [hne] at hx
    rw [hsel a ha (hid a hqa), hsel b hb (hid b hqb)]

section
variable {fresh : Nat} {t t' : QraftTask} (h : Carries fresh t t')
include h

theorem Carries.kept {a : QraftTaskAttempt} (ha : a ∈ t.attempts) :
    ∃ a' ∈ t'.attempts, Later fresh a a' ∧ SameRuns a a' := by
  obtain ⟨f, new, hr, hf, -, -⟩ := h.rows
  refine ⟨f a, ?_, (hf a ha).1, (hf a ha).2.1⟩
  rw [hr]
  exact List.mem_append_left _ (List.mem_map_of_mem ha)

/-- A row of the task after a step goes back to an old one, or is the new one. -/
theorem Carries.origin {a' : QraftTaskAttempt} (ha' : a' ∈ t'.attempts) :
    (∃ a ∈ t.attempts, Later fresh a a' ∧ SameRuns a a' ∧
      (a'.state = .scheduled → a'.q2TaskId = a.q2TaskId ∧ a.state = .scheduled)) ∨
    (a'.id = fresh ∧ a'.q2TaskId = none ∧ a'.executionCount = 0 ∧ a'.dateStarted = none) := by
  obtain ⟨f, new, hr, hf, -, hnew⟩ := h.rows
  rw [hr, List.mem_append] at ha'
  rcases ha' with ha' | ha'
  · obtain ⟨a, ha, rfl⟩ := List.mem_map.mp ha'
    exact .inl ⟨a, ha, hf a ha⟩
  · rcases hnew with rfl | ⟨b, rfl, hb⟩
    · exact absurd ha' List.not_mem_nil
    · rw [List.mem_singleton.mp ha']
      exact .inr hb

theorem Carries.nodup (hn : (t.attempts.map fun a => a.id).Nodup)
    (hb : ∀ a ∈ t.attempts, a.id < fresh) : (t'.attempts.map fun a => a.id).Nodup := by
  obtain ⟨f, new, hr, hf, -, hnew⟩ := h.rows
  have hids : ((t.attempts.map f).map fun a => a.id) = t.attempts.map fun a => a.id := by
    rw [List.map_map]
    exact List.map_congr_left fun a ha => (hf a ha).1.id
  rw [hr, List.map_append, hids]
  rcases hnew with rfl | ⟨b, rfl, hb', -⟩
  · simpa using hn
  · refine List.nodup_append.mpr ⟨hn, by simp, ?_⟩
    intro x hx y hy
    obtain ⟨a, ha, rfl⟩ := List.mem_map.mp hx
    rw [List.map_singleton, List.mem_singleton, hb'] at hy
    exact hy ▸ Nat.ne_of_lt (hb a ha)

/-- At most one row of the task can have taken up the fresh message. -/
theorem Carries.message (hb : ∀ a ∈ t.attempts, ∀ q, a.q2TaskId = some q → q < fresh)
    (hm : ∀ a ∈ t.attempts, ∀ b ∈ t.attempts, ∀ q, a.q2TaskId = some q → b.q2TaskId = some q →
      a.id = b.id) {a' b' : QraftTaskAttempt} (ha' : a' ∈ t'.attempts) (hb' : b' ∈ t'.attempts)
    {q : Q2TaskId} (hq : a'.q2TaskId = some q) (hq' : b'.q2TaskId = some q) : a'.id = b'.id := by
  obtain ⟨f, new, hr, hf, hone, hnew⟩ := h.rows
  have hold : ∀ c ∈ t'.attempts, c.q2TaskId = some q → ∃ a ∈ t.attempts, c = f a := by
    intro c hc hcq
    rw [hr, List.mem_append] at hc
    rcases hc with hc | hc
    · obtain ⟨a, ha, rfl⟩ := List.mem_map.mp hc
      exact ⟨a, ha, rfl⟩
    · rcases hnew with rfl | ⟨b, rfl, hb⟩
      · exact absurd hc List.not_mem_nil
      · rw [List.mem_singleton.mp hc, hb.2.1] at hcq
        cases hcq
  obtain ⟨a, ha, rfl⟩ := hold a' ha' hq
  obtain ⟨b, hbm, rfl⟩ := hold b' hb' hq'
  rw [(hf a ha).1.id, (hf b hbm).1.id]
  rcases (hf a ha).1.message with hsa | ⟨hna, hfa⟩
  · rcases (hf b hbm).1.message with hsb | ⟨hnb, hfb⟩
    · exact hm a ha b hbm q (hsa ▸ hq) (hsb ▸ hq')
    · obtain rfl : fresh = q := Option.some.inj (hfb.symm.trans hq')
      exact absurd (hb a ha fresh (hsa ▸ hq)) (Nat.lt_irrefl _)
  · rcases (hf b hbm).1.message with hsb | ⟨hnb, hfb⟩
    · obtain rfl : fresh = q := Option.some.inj (hfa.symm.trans hq)
      exact absurd (hb b hbm fresh (hsb ▸ hq')) (Nat.lt_irrefl _)
    · rw [hone a ha b hbm (by simp [hna, hfa]) (by simp [hnb, hfb])]

end
end QraftTask

namespace TaskStore
open QraftTaskAttempt

/-- Every attempt is one row of one task, and every message one attempt's. -/
structure Distinct (st : TaskStore) : Prop where
  tasks : (st.tasks.map fun t => t.id).Nodup
  attempts : ∀ t ∈ st.tasks, (t.attempts.map fun a => a.id).Nodup
  owner : ∀ t ∈ st.tasks, ∀ a ∈ t.attempts, ∀ u ∈ st.tasks, ∀ b ∈ u.attempts, a.id = b.id → t = u
  message : ∀ t ∈ st.tasks, ∀ a ∈ t.attempts, ∀ u ∈ st.tasks, ∀ b ∈ u.attempts, ∀ q,
    a.q2TaskId = some q → b.q2TaskId = some q → a.id = b.id
  bound : ∀ t ∈ st.tasks, t.id < st.nextId ∧
    ∀ a ∈ t.attempts, a.id < st.nextId ∧ ∀ q, a.q2TaskId = some q → q < st.nextId
  unclaimed : ∀ t ∈ st.tasks, ∀ a ∈ t.attempts, a.state = .scheduled → a.q2TaskId = none

/-- The attempt rows before and after a step. `R` says what the step may do beside. -/
structure RowsLater (fresh : Nat) (R : QraftTaskAttempt → QraftTaskAttempt → Prop)
    (st st' : TaskStore) : Prop where
  kept : ∀ t ∈ st.tasks, ∀ a ∈ t.attempts, ∃ t' ∈ st'.tasks, t'.id = t.id ∧
    ∃ a' ∈ t'.attempts, Later fresh a a' ∧ R a a'
  origin : ∀ t' ∈ st'.tasks, ∀ a' ∈ t'.attempts, (∃ t ∈ st.tasks, t.id = t'.id ∧
    ∃ a ∈ t.attempts, Later fresh a a' ∧ R a a') ∨ Unseen fresh a'

namespace Distinct
variable {st : TaskStore}

/-- One id, one row. -/
theorem eq_of_id (h : st.Distinct) {t u : QraftTask} {a b : QraftTaskAttempt} (ht : t ∈ st.tasks)
    (ha : a ∈ t.attempts) (hu : u ∈ st.tasks) (hb : b ∈ u.attempts) (hid : a.id = b.id) :
    t = u ∧ a = b := by
  obtain rfl := h.owner t ht a ha u hu b hb hid
  exact ⟨rfl, Rows.eq_of_key_eq (h.attempts t ht) ha hb hid⟩

/-- One message, one row. -/
theorem eq_of_message (h : st.Distinct) {t u : QraftTask} {a b : QraftTaskAttempt} {q : Q2TaskId}
    (ht : t ∈ st.tasks) (ha : a ∈ t.attempts) (hu : u ∈ st.tasks) (hb : b ∈ u.attempts)
    (hq : a.q2TaskId = some q) (hq' : b.q2TaskId = some q) : t = u ∧ a = b :=
  h.eq_of_id ht ha hu hb (h.message t ht a ha u hu b hb q hq hq')

/-- Messages are found by the attempt that was claimed with them. -/
theorem resolveAttempt_of_mem (h : st.Distinct) {t : QraftTask} {a : QraftTaskAttempt} {q : Q2TaskId}
    (ht : t ∈ st.tasks) (ha : a ∈ t.attempts) (hq : a.q2TaskId = some q) : st.resolveAttempt q = some (t, a) := by
  cases hfind : st.resolveAttempt q with
  | none =>
    have hnone := List.findSome?_eq_none_iff.mp hfind t ht
    rw [Option.map_eq_none_iff] at hnone
    have hno := List.find?_eq_none.mp hnone a ha
    simp [hq] at hno
  | some x =>
    obtain ⟨u, b⟩ := x
    obtain ⟨hu, hb, hq'⟩ := resolveAttempt_eq_some hfind
    obtain ⟨rfl, rfl⟩ := h.eq_of_message ht ha hu hb hq hq'
    rfl

/-- Every row is rewritten under its ids. -/
theorem rewrite (h : st.Distinct) {st' : TaskStore} {f : QraftTaskAttempt → QraftTaskAttempt}
    {R : QraftTaskAttempt → QraftTaskAttempt → Prop}
    (hf : ∀ a, (f a).id = a.id ∧ (f a).q2TaskId = a.q2TaskId ∧
      ((f a).state = .scheduled → a.state = .scheduled ∨ a.q2TaskId = none) ∧
      (a.success ≠ none → (f a).success ≠ none) ∧ (a.heartbeatAt ≠ none → (f a).heartbeatAt ≠ none))
    (hR : ∀ a, R a (f a))
    (ht : st'.tasks = st.tasks.map fun t => { t with attempts := t.attempts.map f })
    (hn : st'.nextId = st.nextId) : st'.Distinct ∧ RowsLater st.nextId R st st' := by
  have hmem : ∀ t' ∈ st'.tasks, ∃ t ∈ st.tasks, t' = { t with attempts := t.attempts.map f } := by
    intro t' ht'
    rw [ht] at ht'
    obtain ⟨t, htm, rfl⟩ := List.mem_map.mp ht'
    exact ⟨t, htm, rfl⟩
  have hlater : ∀ a, Later st.nextId a (f a) := fun a =>
    ⟨(hf a).1, (hf a).2.2.2.1, (hf a).2.2.2.2, .inl (hf a).2.1⟩
  refine ⟨⟨?_, ?_, ?_, ?_, ?_, ?_⟩, ?_, ?_⟩
  · rw [ht, List.map_map]
    exact h.tasks
  · intro t' ht'
    obtain ⟨t, htm, rfl⟩ := hmem t' ht'
    have hids : (t.attempts.map fun a => (f a).id) = t.attempts.map fun a => a.id :=
      List.map_congr_left fun a _ => (hf a).1
    simp only [List.map_map, Function.comp_def]
    exact hids ▸ h.attempts t htm
  · intro t' ht' a' ha' u' hu' b' hb' hid
    obtain ⟨t, htm, rfl⟩ := hmem t' ht'
    obtain ⟨u, hum, rfl⟩ := hmem u' hu'
    obtain ⟨a, ha, rfl⟩ := List.mem_map.mp ha'
    obtain ⟨b, hb, rfl⟩ := List.mem_map.mp hb'
    rw [(hf a).1, (hf b).1] at hid
    rw [h.owner t htm a ha u hum b hb hid]
  · intro t' ht' a' ha' u' hu' b' hb' q hq hq'
    obtain ⟨t, htm, rfl⟩ := hmem t' ht'
    obtain ⟨u, hum, rfl⟩ := hmem u' hu'
    obtain ⟨a, ha, rfl⟩ := List.mem_map.mp ha'
    obtain ⟨b, hb, rfl⟩ := List.mem_map.mp hb'
    rw [(hf a).2.1] at hq
    rw [(hf b).2.1] at hq'
    rw [(hf a).1, (hf b).1]
    exact h.message t htm a ha u hum b hb q hq hq'
  · intro t' ht'
    obtain ⟨t, htm, rfl⟩ := hmem t' ht'
    rw [hn]
    refine ⟨(h.bound t htm).1, ?_⟩
    intro a' ha'
    obtain ⟨a, ha, rfl⟩ := List.mem_map.mp ha'
    rw [(hf a).1, (hf a).2.1]
    exact (h.bound t htm).2 a ha
  · intro t' ht' a' ha' hs
    obtain ⟨t, htm, rfl⟩ := hmem t' ht'
    obtain ⟨a, ha, rfl⟩ := List.mem_map.mp ha'
    rw [(hf a).2.1]
    exact ((hf a).2.2.1 hs).elim (h.unclaimed t htm a ha) fun hq => hq
  · intro t htm a ha
    refine ⟨{ t with attempts := t.attempts.map f }, ?_, rfl, f a, List.mem_map_of_mem ha, hlater a, hR a⟩
    rw [ht]
    exact List.mem_map.mpr ⟨t, htm, rfl⟩
  · intro t' ht' a' ha'
    obtain ⟨t, htm, rfl⟩ := hmem t' ht'
    obtain ⟨a, ha, rfl⟩ := List.mem_map.mp ha'
    exact .inl ⟨t, htm, rfl, a, ha, hlater a, hR a⟩

/-- One row is written back. -/
theorem save (h : st.Distinct) {t t' : QraftTask} (ht : t ∈ st.tasks) (hc : Carries st.nextId t t') :
    (st.save t').fresh.Distinct ∧ RowsLater st.nextId SameRuns st (st.save t').fresh := by
  have hmem := mem_save h.tasks ht hc.id
  have hbound := fun a ha => ((h.bound t ht).2 a ha).1
  -- A row of the written task is one of its old rows or new; it is never another task's.
  have hforeign : ∀ u ∈ st.tasks, u ≠ t → ∀ b ∈ u.attempts, ∀ a' ∈ t'.attempts, a'.id ≠ b.id := by
    intro u hu hne b hb a' ha' hid
    rcases hc.origin ha' with ⟨a, ha, hl, -⟩ | ⟨hfresh, -⟩
    · exact hne (h.owner u hu b hb t ht a ha (hid ▸ hl.id))
    · exact Nat.lt_irrefl _ (hfresh ▸ hid ▸ ((h.bound u hu).2 b hb).1)
  have hmessage : ∀ u ∈ st.tasks, u ≠ t → ∀ b ∈ u.attempts, ∀ a' ∈ t'.attempts, ∀ q,
      a'.q2TaskId = some q → b.q2TaskId ≠ some q := by
    intro u hu hne b hb a' ha' q hq hq'
    rcases hc.origin ha' with ⟨a, ha, hl, -⟩ | ⟨-, hnone, -⟩
    · rcases hl.message with hs | ⟨-, hfresh⟩
      · exact hne (h.eq_of_message hu hb ht ha hq' (hs ▸ hq)).1
      · obtain rfl : st.nextId = q := Option.some.inj (hfresh.symm.trans hq)
        exact Nat.lt_irrefl _ (((h.bound u hu).2 b hb).2 _ hq')
    · rw [hnone] at hq
      cases hq
  refine ⟨⟨?_, ?_, ?_, ?_, ?_, ?_⟩, ?_, ?_⟩
  · rw [ids_save]
    exact h.tasks
  · intro r hr
    rcases (hmem r).mp hr with ⟨hr, _⟩ | rfl
    · exact h.attempts r hr
    · exact hc.nodup (h.attempts t ht) hbound
  · intro r hr a ha u hu b hb hid
    rcases (hmem r).mp hr with ⟨hrm, hrt⟩ | rfl
    · rcases (hmem u).mp hu with ⟨hu, _⟩ | rfl
      · exact h.owner r hrm a ha u hu b hb hid
      · exact absurd hid.symm (hforeign r hrm hrt a ha b hb)
    · rcases (hmem u).mp hu with ⟨hu, hut⟩ | rfl
      · exact absurd hid (hforeign u hu hut b hb a ha)
      · rfl
  · intro r hr a ha u hu b hb q hq hq'
    rcases (hmem r).mp hr with ⟨hrm, hrt⟩ | rfl
    · rcases (hmem u).mp hu with ⟨hu, _⟩ | rfl
      · exact h.message r hrm a ha u hu b hb q hq hq'
      · exact absurd hq (hmessage r hrm hrt a ha b hb q hq')
    · rcases (hmem u).mp hu with ⟨hu, hut⟩ | rfl
      · exact absurd hq' (hmessage u hu hut b hb a ha q hq)
      · exact hc.message (fun a ha => ((h.bound t ht).2 a ha).2)
          (fun a ha b hb => h.message t ht a ha t ht b hb) ha hb hq hq'
  · intro r hr
    rw [fresh_nextId, save_nextId]
    rcases (hmem r).mp hr with ⟨hr, _⟩ | rfl
    · obtain ⟨h₁, h₂⟩ := h.bound r hr
      exact ⟨Nat.lt_succ_of_lt h₁, fun a ha => ⟨Nat.lt_succ_of_lt (h₂ a ha).1,
        fun q hq => Nat.lt_succ_of_lt ((h₂ a ha).2 q hq)⟩⟩
    · refine ⟨hc.id ▸ Nat.lt_succ_of_lt (h.bound t ht).1, ?_⟩
      intro a' ha'
      rcases hc.origin ha' with ⟨a, ha, hl, -⟩ | ⟨hfresh, hnone, -⟩
      · obtain ⟨h₁, h₂⟩ := (h.bound t ht).2 a ha
        refine ⟨hl.id ▸ Nat.lt_succ_of_lt h₁, fun q hq => ?_⟩
        rcases hl.message with hs | ⟨-, hfresh⟩
        · exact Nat.lt_succ_of_lt (h₂ q (hs ▸ hq))
        · obtain rfl : st.nextId = q := Option.some.inj (hfresh.symm.trans hq)
          exact Nat.lt_succ_self _
      · refine ⟨hfresh ▸ Nat.lt_succ_self _, fun q hq => ?_⟩
        rw [hnone] at hq
        cases hq
  · intro r hr a' ha' hs
    rcases (hmem r).mp hr with ⟨hr, _⟩ | rfl
    · exact h.unclaimed r hr a' ha' hs
    · rcases hc.origin ha' with ⟨a, ha, -, -, hsch⟩ | ⟨-, hnone, -⟩
      · obtain ⟨hq, hst⟩ := hsch hs
        exact hq.trans (h.unclaimed t ht a ha hst)
      · exact hnone
  · intro u hu a ha
    by_cases he : u = t
    · subst he
      obtain ⟨a', ha', hl⟩ := hc.kept ha
      exact ⟨t', (hmem t').mpr (.inr rfl), hc.id, a', ha', hl⟩
    · exact ⟨u, (hmem u).mpr (.inl ⟨hu, he⟩), rfl, a, ha, .refl _ a, rfl, rfl⟩
  · intro r hr a' ha'
    rcases (hmem r).mp hr with ⟨hr, _⟩ | rfl
    · exact .inl ⟨r, hr, rfl, a', ha', .refl _ a', rfl, rfl⟩
    · rcases hc.origin ha' with ⟨a, ha, hl, hs, -⟩ | ⟨hfresh, hnone, hruns⟩
      · exact .inl ⟨t, ht, hc.id.symm, a, ha, hl, hs⟩
      · refine .inr ⟨Nat.le_of_eq hfresh.symm, hruns.1, hruns.2, fun q hq => ?_⟩
        rw [hnone] at hq
        cases hq

/-- A row is inserted with one attempt. -/
theorem insert (h : st.Distinct) {t : QraftTask} {a : QraftTaskAttempt} {n : Nat}
    (hid : t.id = st.nextId) (ha : t.attempts = [a]) (hun : a.Unseen st.nextId)
    (hb : a.id < n ∧ ∀ q, a.q2TaskId = some q → q < n) (hn : st.nextId < n)
    (hs : a.state = .scheduled → a.q2TaskId = none) :
    TaskStore.Distinct { tasks := st.tasks ++ [t], nextId := n } ∧
      RowsLater st.nextId SameRuns st { tasks := st.tasks ++ [t], nextId := n } := by
  have hmem : ∀ u, u ∈ st.tasks ++ [t] ↔ u ∈ st.tasks ∨ u = t := by simp
  have hta : ∀ b, b ∈ t.attempts ↔ b = a := by simp [ha]
  have hold : ∀ u ∈ st.tasks, ∀ b ∈ u.attempts, b.id ≠ a.id := fun u hu b hb =>
    Nat.ne_of_lt (Nat.lt_of_lt_of_le ((h.bound u hu).2 b hb).1 hun.1)
  have holdq : ∀ u ∈ st.tasks, ∀ b ∈ u.attempts, ∀ q, b.q2TaskId = some q → a.q2TaskId ≠ some q := by
    intro u hu b hb q hq hq'
    exact Nat.lt_irrefl _ (Nat.lt_of_lt_of_le (((h.bound u hu).2 b hb).2 q hq) (hun.2.2.2 q hq'))
  refine ⟨⟨?_, ?_, ?_, ?_, ?_, ?_⟩, ?_, ?_⟩
  · rw [List.map_append, List.nodup_append]
    refine ⟨h.tasks, by simp, ?_⟩
    intro x hx y hy
    obtain ⟨u, hu, rfl⟩ := List.mem_map.mp hx
    rw [List.map_singleton, List.mem_singleton, hid] at hy
    exact hy ▸ Nat.ne_of_lt (h.bound u hu).1
  · intro u hu
    rcases (hmem u).mp hu with hu | rfl
    · exact h.attempts u hu
    · simp [ha]
  · intro r hr b hb u hu c hc hbc
    rcases (hmem r).mp hr with hrm | rfl
    · rcases (hmem u).mp hu with hu | rfl
      · exact h.owner r hrm b hb u hu c hc hbc
      · exact absurd (hbc.trans (congrArg _ ((hta c).mp hc))) (hold r hrm b hb)
    · rcases (hmem u).mp hu with hu | rfl
      · exact absurd (hbc.symm.trans (congrArg _ ((hta b).mp hb))) (hold u hu c hc)
      · rfl
  · intro r hr b hb u hu c hc q hq hq'
    rcases (hmem r).mp hr with hrm | rfl
    · rcases (hmem u).mp hu with hu | rfl
      · exact h.message r hrm b hb u hu c hc q hq hq'
      · exact absurd ((hta c).mp hc ▸ hq') (holdq r hrm b hb q hq)
    · rcases (hmem u).mp hu with hu | rfl
      · exact absurd ((hta b).mp hb ▸ hq) (holdq u hu c hc q hq')
      · rw [(hta b).mp hb, (hta c).mp hc]
  · intro u hu
    rcases (hmem u).mp hu with hu | rfl
    · obtain ⟨h₁, h₂⟩ := h.bound u hu
      exact ⟨Nat.lt_trans h₁ hn, fun b hb => ⟨Nat.lt_trans (h₂ b hb).1 hn,
        fun q hq => Nat.lt_trans ((h₂ b hb).2 q hq) hn⟩⟩
    · exact ⟨hid ▸ hn, fun b hbm => (hta b).mp hbm ▸ hb⟩
  · intro u hu b hbm
    rcases (hmem u).mp hu with hu | rfl
    · exact h.unclaimed u hu b hbm
    · rw [(hta b).mp hbm]
      exact hs
  · exact fun u hu b hbm => ⟨u, (hmem u).mpr (.inl hu), rfl, b, hbm, .refl _ b, rfl, rfl⟩
  · intro u hu b hbm
    rcases (hmem u).mp hu with hu | rfl
    · exact .inl ⟨u, hu, rfl, b, hbm, .refl _ b, rfl, rfl⟩
    · rw [(hta b).mp hbm]
      exact .inr hun

end Distinct

def leasedRow (limit : Nat) (q : Q2TaskId) (w : LeaseWrite) (now : Time) (a : QraftTaskAttempt) :
    QraftTaskAttempt :=
  if (a.q2TaskId = some q && w.selects limit a) = true then w.write now a else a

theorem leasedRow_stamps (limit : Nat) (q : Q2TaskId) (w : LeaseWrite) (now : Time)
    (a : QraftTaskAttempt) : (leasedRow limit q w now a).success = a.success ∧
      (a.dateStarted ≠ none → (leasedRow limit q w now a).dateStarted ≠ none) := by
  unfold leasedRow
  split
  · cases w <;> simp [LeaseWrite.write]
  · exact ⟨rfl, fun h => h⟩

theorem Distinct.lease {st : TaskStore} (h : st.Distinct) (limit : Nat) (q : Q2TaskId)
    (w : LeaseWrite) (now : Time) : (st.lease limit q w now).1.Distinct ∧
      RowsLater st.nextId (fun a b => b = leasedRow limit q w now a) st (st.lease limit q w now).1 := by
  refine h.rewrite (f := leasedRow limit q w now) ?_ (fun _ => rfl) rfl rfl
  intro a
  unfold leasedRow
  split
  · cases w <;> simp [LeaseWrite.write] <;> exact .inl
  · exact ⟨rfl, rfl, .inl, fun h => h, fun h => h⟩

theorem RowsLater.mono {fresh : Nat} {R S : QraftTaskAttempt → QraftTaskAttempt → Prop}
    {st st' : TaskStore} (h : RowsLater fresh R st st') (hrs : ∀ a b, R a b → S a b) :
    RowsLater fresh S st st' := by
  refine ⟨?_, ?_⟩
  · intro t ht a ha
    obtain ⟨t', ht', hid, a', ha', hl, hr⟩ := h.kept t ht a ha
    exact ⟨t', ht', hid, a', ha', hl, hrs a a' hr⟩
  · intro t' ht' a' ha'
    rcases h.origin t' ht' a' ha' with ⟨t, ht, hid, a, ha, hl, hr⟩ | hun
    · exact .inl ⟨t, ht, hid, a, ha, hl, hrs a a' hr⟩
    · exact .inr hun

end TaskStore

namespace Lifecycle
open QraftTaskAttempt TaskStore

/-- The lease writes that begin an execution. -/
def begins : LifecycleEvent → Bool
  | .lease _ .start | .lease _ .again => true
  | _ => false

theorem TaskMove.carries {l : Lifecycle} {env : Env} {e : LifecycleEvent} {t t' : QraftTask}
    (h : l.store.Distinct) (ht : t ∈ l.store.tasks) (hm : TaskMove l env e t t') :
    Carries l.store.nextId t t' := by
  cases hm with
  | claimed hok => exact .of_claim (h.attempts t ht) (h.unclaimed t ht) hok
  | published =>
    refine .of_holds rfl ?_ rfl
    exact holds_ite _ fun a => ⟨rfl, rfl, rfl, rfl, rfl, rfl, fun h => h⟩
  | routed _ _ => exact .of_holds rfl (holds_ite _ holds_routed) rfl
  | result _ _ _ hok =>
    rcases handleResult_ok hok with ⟨he, _⟩ | ⟨b, _, _, _, hres⟩
    · cases he
      exact .refl _ t
    · exact hres.carries
  | reaped _ _ hp hok =>
    simp only [reapable, Bool.and_eq_true, decide_eq_true_eq] at hp
    exact (reap_ok hp.1.1.2 hok).carries
  | requeued _ _ hok =>
    exact .of_scheduled Holds.refl rfl (List.map_id' _).symm hok Holds.refl rfl (List.map_id' _).symm

/-- What any step makes of the attempt rows. -/
theorem step_rows {limit : Nat} {l l' : Lifecycle} {env : Env} {e : LifecycleEvent}
    (h : l.store.Distinct) (hstep : l.step limit env e = some l') :
    l'.store.Distinct ∧ RowsLater l.store.nextId (fun a b => begins e = false → SameRuns a b)
      l.store l'.store := by
  have weaken {st : TaskStore} (hs : st.Distinct ∧ RowsLater l.store.nextId SameRuns l.store st) :
      st.Distinct ∧ RowsLater l.store.nextId (fun a b => begins e = false → SameRuns a b) l.store st :=
    ⟨hs.1, hs.2.mono fun _ _ hr _ => hr⟩
  have heff := step_effect hstep
  generalize l'.store = st at heff
  cases heff with
  | idle =>
    apply weaken
    refine ⟨h, ?_, ?_⟩
    · exact fun t ht a ha => ⟨t, ht, rfl, a, ha, .refl _ a, rfl, rfl⟩
    · exact fun t ht a ha => .inl ⟨t, ht, rfl, a, ha, .refl _ a, rfl, rfl⟩
  | leased q w =>
    obtain ⟨hd, hr⟩ := h.lease limit q w env.now
    refine ⟨hd, hr.mono ?_⟩
    rintro a b rfl hb
    unfold leasedRow
    split
    · cases w with
      | start => cases hb
      | again => cases hb
      | touch => exact ⟨rfl, rfl⟩
      | returned => exact ⟨rfl, rfl⟩
    · exact ⟨rfl, rfl⟩
  | rearmed cutoff =>
    apply weaken
    refine h.rewrite (f := fun a => if (decide (a.state = .queued) && a.q2TaskId.isNone &&
      decide (a.success = none) && a.claimedAt.any fun c => c < cutoff) = true
      then { a with state := .scheduled, claimedAt := none } else a) ?_ ?_ rfl rfl
    · intro a
      split
      · rename_i hp
        simp only [Bool.and_eq_true, Option.isNone_iff_eq_none] at hp
        exact ⟨rfl, rfl, fun _ => .inr hp.1.1.2, fun h => h, fun h => h⟩
      · exact ⟨rfl, rfl, .inl, fun h => h, fun h => h⟩
    · intro a
      split
      · exact ⟨rfl, rfl⟩
      · exact ⟨rfl, rfl⟩
  | written ht hm => exact weaken (h.save ht (hm.carries h ht))
  | enqueued metadata cluster trace =>
    apply weaken
    refine h.insert (t := metadata.enqueued cluster trace l.store.nextId env) rfl rfl ?_ ?_
      (Nat.lt_add_of_pos_right (by decide)) ?_
    · refine ⟨Nat.le_succ _, rfl, rfl, ?_⟩
      rintro q hq
      cases hq
      exact Nat.le_add_right _ _
    · refine ⟨Nat.add_lt_add_left (by decide) _, ?_⟩
      rintro q hq
      cases hq
      exact Nat.lt_succ_self _
    · intro hs
      cases hs
  | scheduled hok =>
    obtain ⟨hid, hrows⟩ := scheduleAttempt_attempts hok
    apply weaken
    refine h.insert hid hrows ⟨Nat.le_succ _, rfl, rfl, ?_⟩ ⟨Nat.lt_succ_self _, ?_⟩
      (Nat.lt_add_of_pos_right (by decide)) fun _ => rfl
    · intro q hq
      cases hq
    · intro q hq
      cases hq

theorem reach_distinct {limit : Nat} {l : Lifecycle} (h : (lifecycleSystem limit).Reach l) :
    l.store.Distinct := by
  apply h.invariant (fun l => l.store.Distinct)
  · rintro l rfl
    refine ⟨List.nodup_nil, ?_, ?_, ?_, ?_, ?_⟩ <;> exact fun t ht => absurd ht List.not_mem_nil
  · intro l e l' hl _ hstep
    exact (step_rows hl hstep).1

end Lifecycle
end Qraft
