import Qraft.Lifecycle.Runs
import Qraft.Lifecycle.Ownership
import Qraft.Execution.Worker

/-! How often an attempt is executed: every call of the target rests on a swap that its
delivery won, and the swaps count executions up to the limit. -/
namespace Qraft
open QraftTaskAttempt

namespace Workers
open TaskStore

/-- A delivery that may call the target: it won a swap, or there is nothing to win. -/
def Passed (w : Workers) (d : Delivery) : Prop :=
  (∃ v, ⟨d, v⟩ ∈ w.claims) ∨ w.life.store.Unowned d.q2TaskId

/-- A delivery that has won no swap, in a context that remembers none for its message. -/
def Pristine (w : Workers) (ctx : WorkerContext) (d : Delivery) : Prop :=
  (∀ g ∈ w.claims, g.delivery.id ≠ d.id) ∧ ∀ v, ctx.deliveryClaim = some (d.q2TaskId, v) → ¬ v.Admits

def Stands (w : Workers) (ctx : WorkerContext) (d : Delivery) : Phase → Prop
  | .claiming caller => (∀ x ∈ w.calls, x.id ≠ d.id) ∧ (w.Pristine ctx d ∨
      (caller = .guardDelivery ∧ ∃ v, ctx.deliveryClaim = some (d.q2TaskId, v) ∧ ⟨d, v⟩ ∈ w.claims))
  | .repeating _ | .lookingUp _ => (∀ x ∈ w.calls, x.id ≠ d.id) ∧ w.Pristine ctx d
  | .granted => (∀ x ∈ w.calls, x.id ≠ d.id) ∧ w.Passed d
  | .running | .reporting .. => True

structure Sits (w : Workers) (ctx : WorkerContext) (ex : Execution) : Prop where
  id : ex.delivery.id < w.nextId
  issued : ex.delivery.q2TaskId < w.life.store.nextId
  late : ex.delivery.late = true → ∀ a, w.life.store.Behind ex.delivery.q2TaskId a → a.success ≠ none
  stands : w.Stands ctx ex.delivery ex.phase

structure Bounded (limit : Nat) (w : Workers) : Prop where
  distinct : w.life.store.Distinct
  unrun : ∀ t ∈ w.life.store.tasks, ∀ a ∈ t.attempts, a.q2TaskId = none → a.executionCount = 0
  /-- The rows count the swaps. -/
  counted : ∀ q a, w.life.store.Behind q a →
    (w.claims.filter fun g => g.delivery.q2TaskId = q).length = a.executionCount ∧
      a.executionCount ≤ limit
  started : ∀ g ∈ w.claims, g.verdict = .first →
    ∀ a, w.life.store.Behind g.delivery.q2TaskId a → a.dateStarted ≠ none
  claims : ∀ g ∈ w.claims, g.verdict.Admits ∧ g.delivery.q2TaskId < w.life.store.nextId ∧
    g.delivery.late = false ∧ g.delivery.id < w.nextId
  firsts : ∀ g ∈ w.claims, ∀ g' ∈ w.claims, g.verdict = .first → g'.verdict = .first →
    g.delivery.q2TaskId = g'.delivery.q2TaskId → g = g'
  once : (w.claims.map fun g => g.delivery.id).Nodup
  calledOnce : (w.calls.map fun d => d.id).Nodup
  calls : ∀ d ∈ w.calls, w.Passed d ∧ d.id < w.nextId
  grants : ∀ g ∈ w.grants, g.verdict.Admits → g ∈ w.claims
  remembered : ∀ ctx ∈ w.contexts, ∀ q v, ctx.deliveryClaim = some (q, v) → v ≠ .unowned
  contexts : ∀ (c : Nat) ctx ex, w.contexts[c]? = some ctx → ctx.execution = some ex → w.Sits ctx ex
  apart : ∀ (c c' : Nat) ctx ctx' ex ex', w.contexts[c]? = some ctx → w.contexts[c']? = some ctx' →
    ctx.execution = some ex → ctx'.execution = some ex' → ex.delivery.id = ex'.delivery.id → c = c'

theorem Passed.mono {w w' : Workers} {d : Delivery} (h : w.Passed d)
    (hc : ∀ g ∈ w.claims, g ∈ w'.claims) (hs : Continues w.life.store w'.life.store) : w'.Passed d := by
  rcases h with ⟨v, hv⟩ | hu
  · exact .inl ⟨v, hc _ hv⟩
  · exact .inr (hu.continues hs)

/-- What other contexts and the table do leaves a delivery where it stands. -/
theorem Sits.mono {w : Workers} {ctx : WorkerContext} {ex : Execution} (h : w.Sits ctx ex)
    (w' : Workers) (hn : w.nextId ≤ w'.nextId) (hs : Continues w.life.store w'.life.store)
    (hc : ∀ g ∈ w.claims, g ∈ w'.claims)
    (hc' : ∀ g ∈ w'.claims, g ∈ w.claims ∨ g.delivery.id ≠ ex.delivery.id)
    (hcalls : ∀ d ∈ w'.calls, d ∈ w.calls ∨ d.id ≠ ex.delivery.id) : w'.Sits ctx ex := by
  have huncalled : (∀ x ∈ w.calls, x.id ≠ ex.delivery.id) → ∀ x ∈ w'.calls, x.id ≠ ex.delivery.id :=
    fun hu x hx => (hcalls x hx).elim (hu x) fun hne => hne
  have hpristine : w.Pristine ctx ex.delivery → w'.Pristine ctx ex.delivery :=
    fun hp => ⟨fun g hg => (hc' g hg).elim (hp.1 g) fun hne => hne, hp.2⟩
  refine ⟨Nat.lt_of_lt_of_le h.id hn, Nat.lt_of_lt_of_le h.issued hs.nextId, ?_, ?_⟩
  · intro hl a' ha'
    obtain ⟨a, ha, hsu, -⟩ := hs.back _ a' ha' h.issued
    exact hsu (h.late hl a ha)
  · have hst := h.stands
    cases hp : ex.phase with
    | claiming caller =>
      rw [hp] at hst
      refine ⟨huncalled hst.1, hst.2.imp hpristine ?_⟩
      rintro ⟨hg, v, hv, hm⟩
      exact ⟨hg, v, hv, hc _ hm⟩
    | repeating caller =>
      rw [hp] at hst
      exact ⟨huncalled hst.1, hpristine hst.2⟩
    | lookingUp caller =>
      rw [hp] at hst
      exact ⟨huncalled hst.1, hpristine hst.2⟩
    | granted =>
      rw [hp] at hst
      exact ⟨huncalled hst.1, hst.2.mono hc hs⟩
    | running => trivial
    | reporting success exc retryAfter => trivial

section
variable {limit : Nat} {w : Workers} (h : w.Bounded limit)
include h

/-- A step of the table that begins no execution. -/
private theorem Bounded.keeps {life : Lifecycle} (hk : Keeps w.life.store life.store) :
    Bounded limit { w with life } := by
  have hcont := hk.continues
  have hold : ∀ q a', life.store.Behind q a' → q < w.life.store.nextId →
      ∃ a, w.life.store.Behind q a ∧ SameRuns a a' := by
    intro q a' ha' hq
    rcases hk.back q a' ha' with ⟨a, ha, hs, _⟩ | ⟨hle, _⟩
    · exact ⟨a, ha, hs⟩
    · exact absurd hq (Nat.not_lt.mpr hle)
  refine { h with
    distinct := hk.distinct, unrun := hk.unrun, counted := ?_, started := ?_, claims := ?_
    calls := ?_, contexts := ?_ }
  · intro q a' ha'
    rcases hk.back q a' ha' with ⟨a, ha, hs, _⟩ | ⟨hle, hzero⟩
    · rw [hs.1]
      exact h.counted q a ha
    · have hnone : (w.claims.filter fun g => g.delivery.q2TaskId = q) = [] := by
        apply List.filter_eq_nil_iff.mpr
        intro g hg hq
        exact Nat.lt_irrefl _ (Nat.lt_of_lt_of_le (of_decide_eq_true hq ▸ (h.claims g hg).2.1) hle)
      simp [hnone, hzero]
  · intro g hg hf a' ha'
    obtain ⟨a, ha, hs⟩ := hold _ a' ha' (h.claims g hg).2.1
    rw [hs.2]
    exact h.started g hg hf a ha
  · intro g hg
    obtain ⟨h₁, h₂, h₃⟩ := h.claims g hg
    exact ⟨h₁, Nat.lt_of_lt_of_le h₂ hk.nextId, h₃⟩
  · intro d hd
    obtain ⟨hp, hn⟩ := h.calls d hd
    exact ⟨hp.mono (fun _ hg => hg) hcont, hn⟩
  · intro c ctx ex hc he
    exact (h.contexts c ctx ex hc he).mono _ (Nat.le_refl _) hcont (fun _ hg => hg)
      (fun _ hg => .inl hg) fun _ hd => .inl hd

/-- One context is replaced. -/
private theorem Bounded.seats (w' : Workers) (c : Nat) (ctx' : WorkerContext)
    (hset : w'.contexts = w.contexts.set c ctx')
    (hothers : ∀ (c' : Nat) y ex, c' ≠ c → w.contexts[c']? = some y → y.execution = some ex →
      w'.Sits y ex)
    (hmine : ∀ ex, ctx'.execution = some ex → w'.Sits ctx' ex ∧ ∀ (c' : Nat) y ex', c' ≠ c →
      w.contexts[c']? = some y → y.execution = some ex' → ex'.delivery.id ≠ ex.delivery.id) :
    (∀ (c : Nat) ctx ex, w'.contexts[c]? = some ctx → ctx.execution = some ex → w'.Sits ctx ex) ∧
    ∀ (c c' : Nat) ctx ctx' ex ex', w'.contexts[c]? = some ctx → w'.contexts[c']? = some ctx' →
      ctx.execution = some ex → ctx'.execution = some ex' → ex.delivery.id = ex'.delivery.id →
        c = c' := by
  have hget : ∀ (i : Nat) y, w'.contexts[i]? = some y →
      (i = c ∧ y = ctx') ∨ (i ≠ c ∧ w.contexts[i]? = some y) := by
    intro i y hy
    rw [hset, List.getElem?_set] at hy
    split at hy
    · rename_i hic
      split at hy
      · exact .inl ⟨hic.symm, (Option.some.inj hy).symm⟩
      · cases hy
    · rename_i hne
      exact .inr ⟨fun he => hne he.symm, hy⟩
  refine ⟨?_, ?_⟩
  · intro i y ex hy he
    rcases hget i y hy with ⟨-, rfl⟩ | ⟨hne, hy⟩
    · exact (hmine ex he).1
    · exact hothers i y ex hne hy he
  · intro i j y z ex ex' hy hz he he' hid
    rcases hget i y hy with ⟨hi, rfl⟩ | ⟨hi, hy⟩
    · rcases hget j z hz with ⟨hj, rfl⟩ | ⟨hj, hz⟩
      · rw [hi, hj]
      · exact absurd hid.symm ((hmine ex he).2 j z ex' hj hz he')
    · rcases hget j z hz with ⟨hj, rfl⟩ | ⟨hj, hz⟩
      · exact absurd hid ((hmine ex' he').2 i y ex hi hy he)
      · exact h.apart i j y z ex ex' hy hz he he' hid

/-- Other contexts deliver other deliveries. -/
private theorem Bounded.others {c : Nat} {ctx : WorkerContext} {ex : Execution}
    (hc : w.contexts[c]? = some ctx) (he : ctx.execution = some ex) (c' : Nat) (y : WorkerContext)
    (ex' : Execution) (hne : c' ≠ c) (hy : w.contexts[c']? = some y) (he' : y.execution = some ex') :
    ex'.delivery.id ≠ ex.delivery.id :=
  fun hid => hne (h.apart c' c y ctx ex' ex hy hc he' he hid)

private theorem Bounded.mem_set {c : Nat} {ctx ctx' : WorkerContext}
    (hctx : w.contexts[c]? = some ctx)
    (hm : ∀ q v, ctx'.deliveryClaim = some (q, v) → ctx.deliveryClaim = some (q, v) ∨ v ≠ .unowned) :
    ∀ y ∈ w.contexts.set c ctx', ∀ q v, y.deliveryClaim = some (q, v) → v ≠ .unowned := by
  intro y hy q v hq
  rcases List.mem_or_eq_of_mem_set hy with hy | rfl
  · exact h.remembered y hy q v hq
  · exact (hm q v hq).elim (h.remembered ctx (List.mem_of_getElem? hctx) q v) fun hne => hne

/-- A delivery moves on in its context, and nothing else does. -/
private theorem Bounded.moves (ctx' : WorkerContext) (phase : Phase) (gs : List Grant) {c : Nat}
    {ctx : WorkerContext} {ex : Execution} (hc : w.contexts[c]? = some ctx) (he : ctx.execution = some ex)
    (he' : ctx'.execution = some ⟨ex.delivery, phase⟩)
    (hm : ∀ q v, ctx'.deliveryClaim = some (q, v) → ctx.deliveryClaim = some (q, v) ∨ v ≠ .unowned)
    (hst : w.Stands ctx' ex.delivery phase) (hg : ∀ g ∈ gs, g.verdict.Admits → g ∈ w.claims) :
    Bounded limit { w.setContext c ctx' with grants := w.grants ++ gs } := by
  have hsits := h.contexts c ctx ex hc he
  obtain ⟨hcontexts, hapart⟩ := h.seats { w.setContext c ctx' with grants := w.grants ++ gs } c ctx' rfl
    (fun c' y ex' _ hy hey => (h.contexts c' y ex' hy hey).mono _ (Nat.le_refl _)
      (.refl _) (fun _ hg => hg) (fun _ hg => .inl hg) fun _ hd => .inl hd)
    (by
      intro ex' hex'
      obtain rfl : (⟨ex.delivery, phase⟩ : Execution) = ex' := Option.some.inj (he'.symm.trans hex')
      exact ⟨⟨hsits.id, hsits.issued, hsits.late, hst⟩, fun c' y ex'' => h.others hc he c' y ex''⟩)
  refine { h with grants := ?_, remembered := h.mem_set hc hm, contexts := hcontexts, apart := hapart }
  intro g hgm
  exact (List.mem_append.mp hgm).elim (h.grants g) (hg g)

/-- A swap that matches its row admits the delivery and counts it. -/
private theorem Bounded.swapped {c : Nat} {ctx : WorkerContext} {ex : Execution} {caller : Caller}
    {write : LeaseWrite} {v : Verdict} {now : Time} (hc : w.contexts[c]? = some ctx)
    (he : ctx.execution = some ex) (huncalled : ∀ x ∈ w.calls, x.id ≠ ex.delivery.id)
    (hpr : w.Pristine ctx ex.delivery)
    (hv : (write = .start ∧ v = .first) ∨ (write = .again ∧ v = .repeated))
    (hmatch : w.life.store.matchesMessage ex.delivery.q2TaskId (write.selects limit) = true) :
    Bounded limit (settle { w.setStore (w.life.store.lease limit ex.delivery.q2TaskId write now).1 with
        claims := w.claims ++ [⟨ex.delivery, v⟩] } c
      { ctx with deliveryClaim := some (ex.delivery.q2TaskId, v) } ex.delivery caller v) := by
  obtain ⟨a₀, ha₀, hsel⟩ := matchesMessage_iff.mp hmatch
  have hsits := h.contexts c ctx ex hc he
  have hadmits : v.Admits := by
    rcases hv with ⟨-, rfl⟩ | ⟨-, rfl⟩
    · exact .inl rfl
    · exact .inr rfl
  have hrow : a₀.success = none ∧ a₀.executionCount < limit ∧ (v = .first → a₀.dateStarted = none) := by
    rcases hv with ⟨rfl, rfl⟩ | ⟨rfl, rfl⟩
    · simp only [LeaseWrite.selects, Bool.and_eq_true, decide_eq_true_eq] at hsel
      exact ⟨hsel.1.2, hsel.2, fun _ => hsel.1.1⟩
    · simp only [LeaseWrite.selects, Bool.and_eq_true, decide_eq_true_eq] at hsel
      exact ⟨hsel.1, hsel.2, fun hf => by cases hf⟩
  have hleased : leasedRow limit ex.delivery.q2TaskId write now a₀ = write.write now a₀ := by
    obtain ⟨_, _, _, hq⟩ := ha₀
    simp [leasedRow, hq, hsel]
  have hcont := continues_lease w.life.store limit ex.delivery.q2TaskId write now
  have hgrow : ∀ g ∈ w.claims, g ∈ w.claims ++ [⟨ex.delivery, v⟩] := fun g => List.mem_append_left _
  have hlate : ex.delivery.late = false := by
    by_contra hl
    exact hsits.late (Bool.not_eq_false _ ▸ hl) a₀ ha₀ hrow.1
  obtain ⟨hcontexts, hapart⟩ := h.seats (settle { w.setStore
      (w.life.store.lease limit ex.delivery.q2TaskId write now).1 with
        claims := w.claims ++ [⟨ex.delivery, v⟩] } c
      { ctx with deliveryClaim := some (ex.delivery.q2TaskId, v) } ex.delivery caller v) c
    { ctx with
      deliveryClaim := some (ex.delivery.q2TaskId, v)
      execution := some ⟨ex.delivery, Caller.next caller v⟩ } rfl
    (by
      intro c' y ex' hne hy hey
      have hother := h.others hc he c' y ex' hne hy hey
      refine (h.contexts c' y ex' hy hey).mono _ (Nat.le_refl _) hcont hgrow ?_ fun _ hd => .inl hd
      intro g hg
      refine (List.mem_append.mp hg).imp id fun hg => ?_
      rw [List.mem_singleton.mp hg]
      exact hother.symm)
    (by
      intro ex' hex'
      obtain rfl := Option.some.inj hex'
      refine ⟨⟨hsits.id, hsits.issued, ?_, ?_⟩, fun c' y ex'' => h.others hc he c' y ex''⟩
      · intro hl
        rw [hlate] at hl
        cases hl
      · have hwon : ⟨ex.delivery, v⟩ ∈ w.claims ++ [⟨ex.delivery, v⟩] := by simp
        cases caller with
        | preExecute => exact ⟨huncalled, .inr ⟨rfl, v, rfl, hwon⟩⟩
        | guardDelivery =>
          rcases hv with ⟨-, rfl⟩ | ⟨-, rfl⟩
          · exact ⟨huncalled, .inl ⟨_, hwon⟩⟩
          · exact ⟨huncalled, .inl ⟨_, hwon⟩⟩)
  refine { h with
    distinct := (h.distinct.lease limit ex.delivery.q2TaskId write now).1, unrun := ?_, counted := ?_
    started := ?_, claims := ?_, firsts := ?_, once := ?_, calls := ?_, grants := ?_
    remembered := h.mem_set hc ?_, contexts := hcontexts, apart := hapart }
  · intro t' ht' a' ha' hq
    obtain ⟨t, ht, rfl⟩ := List.mem_map.mp ht'
    obtain ⟨a, ha, rfl⟩ := Rows.mem_updateWhere.mp ha'
    split at hq
    · rename_i hs
      simp only [Bool.and_eq_true, decide_eq_true_eq] at hs
      cases write <;> simp [LeaseWrite.write, hs.1] at hq
    · rename_i hs
      rw [if_neg hs]
      exact h.unrun t ht a ha hq
  · intro q a' ha'
    obtain ⟨a, ha, rfl⟩ := behind_lease ha'
    obtain ⟨hcount, hle⟩ := h.counted q a ha
    simp only [settle, setContext, setStore, List.filter_append]
    by_cases hq : ex.delivery.q2TaskId = q
    · subst hq
      obtain rfl := h.distinct.behind_unique ha ha₀
      have hexec : (write.write now a).executionCount = a.executionCount + 1 := by
        rcases hv with ⟨rfl, -⟩ | ⟨rfl, -⟩
        · rfl
        · rfl
      rw [hleased, hexec]
      simp only [decide_true, List.filter_cons_of_pos, List.filter_nil, List.length_append,
        List.length_singleton]
      have := hrow.2.1
      omega
    · have hsame : leasedRow limit ex.delivery.q2TaskId write now a = a := by
        obtain ⟨_, _, _, haq⟩ := ha
        have hne : q ≠ ex.delivery.q2TaskId := fun he => hq he.symm
        simp [leasedRow, haq, hne]
      rw [hsame]
      simpa [hq] using ⟨hcount, hle⟩
  · intro g hg hf a' ha'
    obtain ⟨a, ha, rfl⟩ := behind_lease ha'
    rcases List.mem_append.mp hg with hg | hg
    · exact (leasedRow_stamps limit _ write now a).2 (h.started g hg hf a ha)
    · obtain rfl := List.mem_singleton.mp hg
      obtain rfl := h.distinct.behind_unique ha ha₀
      rcases hv with ⟨rfl, -⟩ | ⟨-, rfl⟩
      · rw [hleased]
        simp [LeaseWrite.write]
      · cases hf
  · intro g hg
    rcases List.mem_append.mp hg with hg | hg
    · exact h.claims g hg
    · rw [List.mem_singleton.mp hg]
      exact ⟨hadmits, hsits.issued, hlate, hsits.id⟩
  · have hnew : ∀ g ∈ w.claims, g.verdict = .first → v = .first →
        g.delivery.q2TaskId ≠ ex.delivery.q2TaskId := by
      intro g hg hf hvf hq
      exact h.started g hg hf a₀ (hq ▸ ha₀) (hrow.2.2 hvf)
    intro g hg g' hg' hf hf' hq
    rcases List.mem_append.mp hg with hg | hg
    · rcases List.mem_append.mp hg' with hg' | hg'
      · exact h.firsts g hg g' hg' hf hf' hq
      · obtain rfl := List.mem_singleton.mp hg'
        exact absurd hq (hnew g hg hf hf')
    · obtain rfl := List.mem_singleton.mp hg
      rcases List.mem_append.mp hg' with hg' | hg'
      · exact absurd hq.symm (hnew g' hg' hf' hf)
      · exact (List.mem_singleton.mp hg').symm
  · simp only [settle, setContext, setStore, List.map_append, List.map_singleton]
    refine List.nodup_append.mpr ⟨h.once, by simp, ?_⟩
    intro x hx y hy
    obtain ⟨g, hg, rfl⟩ := List.mem_map.mp hx
    rw [List.mem_singleton.mp hy]
    exact hpr.1 g hg
  · intro d hd
    obtain ⟨hp, hn⟩ := h.calls d hd
    exact ⟨hp.mono hgrow hcont, hn⟩
  · intro g hg hga
    rcases List.mem_append.mp hg with hg | hg
    · exact hgrow g (h.grants g hg hga)
    · exact List.mem_append_right _ hg
  · intro q v' hqv
    refine .inr ?_
    obtain ⟨-, rfl⟩ := Prod.mk.inj (Option.some.inj hqv)
    rintro rfl
    rcases hadmits with hf | hf <;> cases hf

/-- The table's own steps. -/
private theorem Bounded.life {life : Lifecycle} (e : LifecycleEvent) (env : Env)
    (hb : Lifecycle.begins e = false) (hstep : w.life.step limit env e = some life) :
    Bounded limit { w with life } := by
  obtain ⟨hd, hr⟩ := Lifecycle.step_rows h.distinct hstep
  apply h.keeps
  exact (hr.mono fun _ _ hs => hs hb).keeps hd (Lifecycle.step_nextId hstep) h.unrun

/-- A context is left without a delivery. -/
private theorem Bounded.clears (ctx' : WorkerContext) {c : Nat} {ctx : WorkerContext}
    (hc : w.contexts[c]? = some ctx) (hnone : ctx'.execution = none)
    (hm : ∀ q v, ctx'.deliveryClaim = some (q, v) → ctx.deliveryClaim = some (q, v) ∨ v ≠ .unowned) :
    Bounded limit (w.setContext c ctx') := by
  obtain ⟨hcontexts, hapart⟩ := h.seats (w.setContext c ctx') c ctx' rfl
    (fun c' y ex' _ hy hey => (h.contexts c' y ex' hy hey).mono _ (Nat.le_refl _) (.refl _)
      (fun _ hg => hg) (fun _ hg => .inl hg) fun _ hd => .inl hd)
    (fun ex hex => by
      rw [hnone] at hex
      cases hex)
  exact { h with remembered := h.mem_set hc hm, contexts := hcontexts, apart := hapart }

/-- Results on their way bear on nothing here. -/
private theorem Bounded.reports (rs rs' : List Report) :
    Bounded limit { w with reports := rs, reported := rs' } := by
  refine { h with contexts := ?_ }
  intro c ctx ex hc he
  exact (h.contexts c ctx ex hc he).mono _ (Nat.le_refl _) (.refl _) (fun _ hg => hg)
    (fun _ hg => .inl hg) fun _ hd => .inl hd

private theorem Bounded.spawn (threaded : Bool) :
    Bounded limit { w with contexts := w.contexts ++ [{ threaded }] } := by
  have hget : ∀ (i : Nat) y ex, (w.contexts ++ [({ threaded } : WorkerContext)])[i]? = some y →
      y.execution = some ex → w.contexts[i]? = some y := by
    intro i y ex hy he
    rw [List.getElem?_append] at hy
    split at hy
    · exact hy
    · obtain rfl := List.mem_singleton.mp (List.mem_of_getElem? hy)
      cases he
  refine { h with remembered := ?_, contexts := ?_, apart := ?_ }
  · intro y hy q v hq
    rcases List.mem_append.mp hy with hy | hy
    · exact h.remembered y hy q v hq
    · rw [List.mem_singleton.mp hy] at hq
      cases hq
  · intro i y ex hy he
    exact (h.contexts i y ex (hget i y ex hy he) he).mono _ (Nat.le_refl _) (.refl _)
      (fun _ hg => hg) (fun _ hg => .inl hg) fun _ hd => .inl hd
  · intro i j y z ex ex' hy hz he he' hid
    exact h.apart i j y z ex ex' (hget i y ex hy he) (hget j z ex' hz he') he he' hid

/-- A message arrives in a context that remembers no admission for it. -/
private theorem Bounded.receive {c : Nat} {ctx : WorkerContext} {q : Q2TaskId}
    (hc : w.contexts[c]? = some ctx) (hq : q < w.life.store.nextId)
    (hclean : ∀ v, ctx.deliveryClaim = some (q, v) → ¬ v.Admits) :
    Bounded limit { w.setContext c { ctx with execution := some ⟨⟨w.nextId, q,
        w.life.store.matchesMessage q fun a => a.success ≠ none⟩, .claiming .preExecute⟩ } with
      nextId := w.nextId + 1 } := by
  obtain ⟨hcontexts, hapart⟩ := h.seats { w.setContext c { ctx with execution := some ⟨⟨w.nextId, q,
        w.life.store.matchesMessage q fun a => a.success ≠ none⟩, .claiming .preExecute⟩ } with
      nextId := w.nextId + 1 } c _ rfl
    (fun c' y ex' _ hy hey => (h.contexts c' y ex' hy hey).mono _ (Nat.le_succ _) (.refl _)
      (fun _ hg => hg) (fun _ hg => .inl hg) fun _ hd => .inl hd)
    (by
      intro ex hex
      obtain rfl := Option.some.inj hex
      refine ⟨⟨Nat.lt_succ_self _, hq, ?_, ?_, .inl ⟨?_, hclean⟩⟩, ?_⟩
      · intro hl a ha
        obtain ⟨b, hb, hs⟩ := matchesMessage_iff.mp hl
        rw [h.distinct.behind_unique ha hb]
        exact of_decide_eq_true hs
      · exact fun x hx => Nat.ne_of_lt (h.calls x hx).2
      · exact fun g hg => Nat.ne_of_lt (h.claims g hg).2.2.2
      · exact fun c' y ex' _ hy hey => Nat.ne_of_lt (h.contexts c' y ex' hy hey).id)
  refine { h with
    claims := ?_, calls := ?_, remembered := h.mem_set hc fun _ _ hq => .inl hq
    contexts := hcontexts, apart := hapart }
  · intro g hg
    obtain ⟨h₁, h₂, h₃, h₄⟩ := h.claims g hg
    exact ⟨h₁, h₂, h₃, Nat.lt_succ_of_lt h₄⟩
  · intro d hd
    exact ⟨(h.calls d hd).1, Nat.lt_succ_of_lt (h.calls d hd).2⟩

/-- A swap that matches no row leads on. -/
private theorem Bounded.swap (now : Time) (caller : Caller) (otherwise : Phase) {c : Nat}
    {ctx : WorkerContext} {ex : Execution} {write : LeaseWrite} {v : Verdict}
    (hc : w.contexts[c]? = some ctx) (he : ctx.execution = some ex)
    (huncalled : ∀ x ∈ w.calls, x.id ≠ ex.delivery.id) (hpr : w.Pristine ctx ex.delivery)
    (hv : (write = .start ∧ v = .first) ∨ (write = .again ∧ v = .repeated))
    (hst : w.Stands ctx ex.delivery otherwise) :
    Bounded limit (w.swap limit now c ctx ex.delivery caller write v otherwise) := by
  unfold Workers.swap
  split
  · rename_i hm
    exact h.swapped hc he huncalled hpr hv hm
  · have hmoved := h.moves { ctx with execution := some ⟨ex.delivery, otherwise⟩ } otherwise [] hc he
      rfl (fun _ _ hq => .inl hq) hst fun g hg => absurd hg List.not_mem_nil
    simpa [setContext] using hmoved

/-- `claim_delivery` returns a verdict that it did not win just now. -/
private theorem Bounded.settle (ctx' : WorkerContext) (caller : Caller) (v : Verdict) {c : Nat}
    {ctx : WorkerContext} {ex : Execution} (hc : w.contexts[c]? = some ctx)
    (he : ctx.execution = some ex)
    (hm : ∀ q v, ctx'.deliveryClaim = some (q, v) → ctx.deliveryClaim = some (q, v) ∨ v ≠ .unowned)
    (hst : w.Stands ctx' ex.delivery (Caller.next caller v))
    (hg : v.Admits → ⟨ex.delivery, v⟩ ∈ w.claims) :
    Bounded limit (w.settle c ctx' ex.delivery caller v) := by
  refine h.moves { ctx' with execution := some ⟨ex.delivery, Caller.next caller v⟩ }
    (Caller.next caller v) [⟨ex.delivery, v⟩] hc he rfl hm ?_ ?_
  · cases hp : Caller.next caller v <;> rw [hp] at hst <;> exact hst
  · intro g hgm ha
    rw [List.mem_singleton.mp hgm] at ha ⊢
    exact hg ha

/-- The context remembers a verdict for the message it was delivered. -/
private theorem Bounded.recall {c : Nat} {ctx : WorkerContext} {ex : Execution} {caller : Caller}
    {v : Verdict} (hc : w.contexts[c]? = some ctx) (he : ctx.execution = some ex)
    (hmemo : ctx.deliveryClaim = some (ex.delivery.q2TaskId, v))
    (hst : w.Stands ctx ex.delivery (.claiming caller)) :
    Bounded limit (w.settle c ctx ex.delivery caller v) := by
  obtain ⟨huncalled, hpr | ⟨rfl, v', hv', hwon⟩⟩ := hst
  · -- Not an admission, so the refusal of an earlier delivery.
    have hrefused : v = .refused := by
      have h₁ := hpr.2 v hmemo
      have h₂ := h.remembered ctx (List.mem_of_getElem? hc) _ v hmemo
      cases v with
      | first => exact absurd (.inl rfl) h₁
      | repeated => exact absurd (.inr rfl) h₁
      | refused => rfl
      | unowned => exact absurd rfl h₂
    subst hrefused
    refine h.settle ctx caller .refused hc he (fun _ _ hq => .inl hq) ?_ ?_
    · cases caller with
      | preExecute => exact ⟨huncalled, .inl hpr⟩
      | guardDelivery => trivial
    · intro ha
      rcases ha with ha | ha <;> cases ha
  · obtain rfl : v' = v := by
      rw [hmemo] at hv'
      exact (Prod.mk.inj (Option.some.inj hv')).2.symm
    refine h.settle ctx .guardDelivery v' hc he (fun _ _ hq => .inl hq) ?_ fun _ => hwon
    rcases (h.claims _ hwon).1 with hf | hf
    · simp only at hf
      subst hf
      exact ⟨huncalled, .inl ⟨_, hwon⟩⟩
    · simp only at hf
      subst hf
      exact ⟨huncalled, .inl ⟨_, hwon⟩⟩

/-- Neither swap matched: the message is refused, or belongs to no attempt. -/
private theorem Bounded.lookup {c : Nat} {ctx : WorkerContext} {ex : Execution} {caller : Caller}
    {w' : Workers} {now : Time} (hc : w.contexts[c]? = some ctx) (he : ctx.execution = some ex)
    (huncalled : ∀ x ∈ w.calls, x.id ≠ ex.delivery.id) (hpr : w.Pristine ctx ex.delivery)
    (hstep : w.advance limit now c ctx ex.delivery (.lookingUp caller) = some w') :
    Bounded limit w' := by
  have hnot (v : Verdict) (hv : v = .refused ∨ v = .unowned) (ha : v.Admits) :
      ⟨ex.delivery, v⟩ ∈ w.claims := by
    rcases hv with rfl | rfl <;> rcases ha with ha | ha <;> cases ha
  simp only [Workers.advance] at hstep
  split at hstep
  · cases hstep
    refine h.settle { ctx with deliveryClaim := some (ex.delivery.q2TaskId, .refused) } caller .refused
      hc he ?_ ?_ (hnot .refused (.inl rfl))
    · intro q v hq
      obtain ⟨-, rfl⟩ := Prod.mk.inj (Option.some.inj hq)
      exact .inr (by simp)
    · cases caller with
      | preExecute =>
        refine ⟨huncalled, .inl ⟨hpr.1, fun v hv => ?_⟩⟩
        obtain ⟨-, rfl⟩ := Prod.mk.inj (Option.some.inj hv)
        rintro (ha | ha) <;> cases ha
      | guardDelivery => trivial
  · rename_i hno
    cases hstep
    refine h.settle ctx caller .unowned hc he (fun _ _ hq => .inl hq) ?_ (hnot .unowned (.inr rfl))
    cases caller with
    | preExecute => exact ⟨huncalled, .inl hpr⟩
    | guardDelivery =>
      refine ⟨huncalled, .inr ⟨(h.contexts c ctx ex hc he).issued, fun a ha => ?_⟩⟩
      exact hno (matchesMessage_iff.mpr ⟨a, ha, rfl⟩)

/-- The target is called. -/
private theorem Bounded.call {c : Nat} {ctx : WorkerContext} {ex : Execution}
    (hc : w.contexts[c]? = some ctx) (he : ctx.execution = some ex)
    (huncalled : ∀ x ∈ w.calls, x.id ≠ ex.delivery.id) (hpassed : w.Passed ex.delivery) :
    Bounded limit { w.setContext c { ctx with execution := some ⟨ex.delivery, .running⟩ } with
      calls := w.calls ++ [ex.delivery] } := by
  have hsits := h.contexts c ctx ex hc he
  obtain ⟨hcontexts, hapart⟩ := h.seats
    { w.setContext c { ctx with execution := some ⟨ex.delivery, .running⟩ } with
      calls := w.calls ++ [ex.delivery] } c { ctx with execution := some ⟨ex.delivery, .running⟩ } rfl
    (by
      intro c' y ex' hne hy hey
      refine (h.contexts c' y ex' hy hey).mono _ (Nat.le_refl _) (.refl _) (fun _ hg => hg)
        (fun _ hg => .inl hg) ?_
      intro d hd
      refine (List.mem_append.mp hd).imp id fun hd => ?_
      rw [List.mem_singleton.mp hd]
      exact (h.others hc he c' y ex' hne hy hey).symm)
    (by
      intro ex' hex'
      obtain rfl := Option.some.inj hex'
      exact ⟨⟨hsits.id, hsits.issued, hsits.late, trivial⟩, fun c' y ex'' => h.others hc he c' y ex''⟩)
  refine { h with
    calledOnce := ?_, calls := ?_, remembered := h.mem_set hc fun _ _ hq => .inl hq
    contexts := hcontexts, apart := hapart }
  · rw [List.map_append, List.map_singleton]
    refine List.nodup_append.mpr ⟨h.calledOnce, by simp, ?_⟩
    intro x hx y hy
    obtain ⟨d, hd, rfl⟩ := List.mem_map.mp hx
    rw [List.mem_singleton.mp hy]
    exact huncalled d hd
  · intro d hd
    rcases List.mem_append.mp hd with hd | hd
    · exact h.calls d hd
    · rw [List.mem_singleton.mp hd]
      exact ⟨hpassed, hsits.id⟩

private theorem Bounded.advance {c : Nat} {ctx : WorkerContext} {ex : Execution} {now : Time}
    {w' : Workers} (hc : w.contexts[c]? = some ctx) (he : ctx.execution = some ex)
    (hstep : w.advance limit now c ctx ex.delivery ex.phase = some w') : Bounded limit w' := by
  have hst := (h.contexts c ctx ex hc he).stands
  cases hp : ex.phase with
  | claiming caller =>
    rw [hp] at hst hstep
    have hswap (hpr : w.Pristine ctx ex.delivery) := h.swap now caller (.repeating caller) hc he
      hst.1 hpr (.inl ⟨rfl, rfl⟩) ⟨hst.1, hpr⟩
    have hclean (hne : ∀ v, ctx.deliveryClaim ≠ some (ex.delivery.q2TaskId, v)) :
        w.Pristine ctx ex.delivery := by
      rcases hst.2 with hpr | ⟨-, v, hv, -⟩
      · exact hpr
      · exact absurd hv (hne v)
    simp only [Workers.advance] at hstep
    split at hstep
    · rename_i q v hmemo
      split at hstep
      · rename_i hq
        cases hstep
        exact h.recall hc he (hq ▸ hmemo) hst
      · rename_i hq
        cases hstep
        refine hswap (hclean fun v' hv' => hq ?_)
        rw [hmemo] at hv'
        exact (Prod.mk.inj (Option.some.inj hv')).1
    · rename_i hmemo
      cases hstep
      refine hswap (hclean fun v' hv' => ?_)
      rw [hmemo] at hv'
      cases hv'
  | repeating caller =>
    rw [hp] at hst hstep
    cases hstep
    exact h.swap now caller (.lookingUp caller) hc he hst.1 hst.2 (.inr ⟨rfl, rfl⟩) hst
  | lookingUp caller =>
    rw [hp] at hst hstep
    exact h.lookup hc he hst.1 hst.2 hstep
  | granted =>
    rw [hp] at hst hstep
    cases hstep
    exact h.call hc he hst.1 hst.2
  | running =>
    rw [hp] at hstep
    cases hstep
  | reporting success exc retryAfter =>
    rw [hp] at hstep
    cases hstep

/-- The target is over, and its end is stamped. -/
private theorem Bounded.finish {c : Nat} {ctx : WorkerContext} {ex : Execution} {env : Env}
    (phase : Phase) (hphase : ∀ ctx d, w.Stands ctx d phase) (hc : w.contexts[c]? = some ctx)
    (he : ctx.execution = some ex) : Bounded limit
      ((w.setStore (w.life.store.lease limit ex.delivery.q2TaskId .returned env.now).1).setContext
        c { ctx with execution := some ⟨ex.delivery, phase⟩ }) := by
  have hmoved := h.moves { ctx with execution := some ⟨ex.delivery, phase⟩ } phase [] hc he rfl
    (fun _ _ hq => .inl hq) (hphase _ _) fun g hg => absurd hg List.not_mem_nil
  have hstamped := hmoved.life (.lease ex.delivery.q2TaskId .returned) env rfl rfl
  simpa [setContext, setStore] using hstamped

end

/-- No message is delivered to a context that still holds its admission. -/
def clearsClaims (w : Workers) : WorkerEvent → Bool
  | .receive c q => (w.contexts[c]?.bind fun ctx => ctx.deliveryClaim).all fun (q', v) =>
      q' ≠ q || !decide v.Admits
  | _ => true

def ClearsClaims (w : Workers) (e : WorkerEvent × Env) : Prop := w.clearsClaims e.1 = true

instance (w : Workers) (e : WorkerEvent × Env) : Decidable (w.ClearsClaims e) :=
  inferInstanceAs (Decidable (_ = true))

theorem Bounded.step {limit : Nat} {w w' : Workers} {e : WorkerEvent × Env} (h : w.Bounded limit)
    (hok : w.ClearsClaims e) (hstep : (workerSystem limit).step w e = some w') : w'.Bounded limit := by
  obtain ⟨e, env⟩ := e
  simp only [workerSystem] at hstep
  cases e with
  | life e =>
    simp only [Workers.step] at hstep
    split at hstep
    · rename_i hamb
      obtain ⟨life, hl, rfl⟩ := Option.map_eq_some_iff.mp hstep
      refine h.life e env ?_ hl
      unfold Lifecycle.begins
      split
      · cases hamb
      · cases hamb
      · rfl
    · cases hstep
  | spawn threaded =>
    cases hstep
    exact h.spawn threaded
  | receive c q =>
    simp only [Workers.step] at hstep
    obtain ⟨ctx, hc, hstep⟩ := Option.bind_eq_some_iff.mp hstep
    split at hstep
    · rename_i hidle
      cases hstep
      refine h.receive hc hidle.2 fun v hv => ?_
      have hok : w.clearsClaims (.receive c q) = true := hok
      simpa [clearsClaims, hc, hv] using hok
    · cases hstep
  | advance c =>
    obtain ⟨ctx, hc, hstep⟩ := Option.bind_eq_some_iff.mp hstep
    obtain ⟨ex, he, hstep⟩ := Option.bind_eq_some_iff.mp hstep
    exact h.advance hc he hstep
  | finish c success exc retryAfter =>
    obtain ⟨ctx, hc, hstep⟩ := Option.bind_eq_some_iff.mp hstep
    obtain ⟨ex, he, hstep⟩ := Option.bind_eq_some_iff.mp hstep
    split at hstep
    · cases hstep
      exact h.finish (.reporting success exc retryAfter) (fun _ _ => trivial) hc he
    · cases hstep
  | report c =>
    obtain ⟨ctx, hc, hstep⟩ := Option.bind_eq_some_iff.mp hstep
    obtain ⟨ex, he, hstep⟩ := Option.bind_eq_some_iff.mp hstep
    simp only at hstep
    split at hstep
    · cases hstep
      refine (h.clears { ctx with
        deliveryClaim := if ctx.threaded then none else ctx.deliveryClaim, execution := none } hc rfl
        ?_).reports _ _
      intro q v hq
      simp only at hq
      split at hq
      · cases hq
      · exact .inl hq
    · cases hstep
  | save i =>
    obtain ⟨r, _, hstep⟩ := Option.bind_eq_some_iff.mp hstep
    obtain ⟨life, hl, rfl⟩ := Option.map_eq_some_iff.mp hstep
    exact (h.life (.saveResult r.result) env rfl hl).reports _ _
  | lose i =>
    cases hstep
    exact h.reports _ _
  | crash c =>
    obtain ⟨ctx, hc, rfl⟩ := Option.map_eq_some_iff.mp hstep
    refine h.clears { threaded := ctx.threaded } hc rfl fun q v hq => ?_
    cases hq

theorem reach_bounded {limit : Nat} {w : Workers}
    (h : (workerSystem limit).ReachWhen ClearsClaims w) : w.Bounded limit := by
  apply h.invariant (Bounded limit)
  · rintro w rfl
    have hstart : (lifecycleSystem limit).Reach {} := .init rfl
    have hstore := Lifecycle.reach_distinct hstart
    refine ⟨hstore, ?_, ?_, ?_, ?_, ?_, List.nodup_nil, List.nodup_nil, ?_, ?_, ?_, ?_, ?_⟩
    · exact fun t ht => absurd ht List.not_mem_nil
    · rintro q a ⟨t, ht, _⟩
      exact absurd ht List.not_mem_nil
    · exact fun g hg => absurd hg List.not_mem_nil
    · exact fun g hg => absurd hg List.not_mem_nil
    · exact fun g hg => absurd hg List.not_mem_nil
    · exact fun d hd => absurd hd List.not_mem_nil
    · exact fun g hg => absurd hg List.not_mem_nil
    · exact fun c hc => absurd hc List.not_mem_nil
    · intro c ctx ex hc
      cases hc
    · intro c c' ctx ctx' ex ex' hc
      cases hc
  · intro w e w' hw hok hstep
    exact hw.step hok hstep

/-- As long as no message is delivered to a context that still holds its admission: the
target is called at most `max_executions_per_attempt` times for an attempt, one delivery is
granted the first execution, and no call is on behalf of a delivery that came after the
attempt was decided. -/
theorem executions_bounded {limit : Nat} {w : Workers}
    (h : (workerSystem limit).ReachWhen ClearsClaims w) {t : QraftTask} {a : QraftTaskAttempt}
    {q : Q2TaskId} (ht : t ∈ w.life.store.tasks) (ha : a ∈ t.attempts) (hq : a.q2TaskId = some q) :
    (w.calls.filter fun d => d.q2TaskId = q).length ≤ limit ∧
    (∀ g ∈ w.grants, ∀ g' ∈ w.grants, g.delivery.q2TaskId = q → g'.delivery.q2TaskId = q →
      g.verdict = .first → g'.verdict = .first → g.delivery = g'.delivery) ∧
    ∀ d ∈ w.calls, d.q2TaskId = q → d.late = false := by
  have hb := reach_bounded h
  have hbehind : w.life.store.Behind q a := ⟨t, ht, ha, hq⟩
  have hwon : ∀ d ∈ w.calls, d.q2TaskId = q → ∃ v, ⟨d, v⟩ ∈ w.claims := by
    intro d hd hdq
    rcases (hb.calls d hd).1 with hv | hu
    · exact hv
    · exact absurd (hdq ▸ hbehind) (hu.2 a)
  refine ⟨?_, ?_, ?_⟩
  · have hsub : ((w.calls.filter fun d => d.q2TaskId = q).map fun d => d.id) ⊆
        (w.claims.filter fun g => g.delivery.q2TaskId = q).map fun g => g.delivery.id := by
      intro x hx
      obtain ⟨d, hd, rfl⟩ := List.mem_map.mp hx
      obtain ⟨hdm, hdq⟩ := List.mem_filter.mp hd
      obtain ⟨v, hv⟩ := hwon d hdm (of_decide_eq_true hdq)
      exact List.mem_map.mpr ⟨⟨d, v⟩, List.mem_filter.mpr ⟨hv, hdq⟩, rfl⟩
    have hnodup : ((w.calls.filter fun d => d.q2TaskId = q).map fun d => d.id).Nodup :=
      hb.calledOnce.sublist (List.filter_sublist.map _)
    have hle := (List.subperm_of_subset hnodup hsub).length_le
    obtain ⟨hcount, hlimit⟩ := hb.counted q a hbehind
    rw [List.length_map, List.length_map] at hle
    omega
  · intro g hg g' hg' hgq hgq' hf hf'
    have hm := hb.grants g hg (.inl hf)
    have hm' := hb.grants g' hg' (.inl hf')
    rw [hb.firsts g hm g' hm' hf hf' (hgq.trans hgq'.symm)]
  · intro d hd hdq
    obtain ⟨v, hv⟩ := hwon d hd hdq
    exact (hb.claims _ hv).2.2.1

def atTime (now : Time) (e : WorkerEvent) : WorkerEvent × Env := (e, { now })

/-- One process works on an attempt to the end, and is then delivered its message again. -/
def deliveredTwice : List (WorkerEvent × Env) := [
  atTime 1 (.life (.asyncTask Lifecycle.work none none)),
  atTime 1 (.spawn false),
  atTime 2 (.receive 0 2),
  atTime 3 (.advance 0),
  atTime 3 (.advance 0),
  atTime 3 (.advance 0),
  atTime 4 (.finish 0 true none none),
  atTime 4 (.report 0),
  atTime 5 (.save 0),
  atTime 6 (.life (.handleResult 0)),
  atTime 7 (.receive 0 2),
  atTime 8 (.advance 0),
  atTime 8 (.advance 0),
  atTime 8 (.advance 0)]

theorem executions_bounded_once : ∃ w, (workerSystem 1).ReachWhen ClearsClaims w ∧
    (∃ t ∈ w.life.store.tasks, ∃ a ∈ t.attempts, a.q2TaskId = some 2 ∧ a.success = some true) ∧
      (w.calls.filter fun d => d.q2TaskId = 2).length ≤ 1 := by
  obtain ⟨w, hr, hp⟩ := StepSystem.exists_reach_of_run
    ((workerSystem 1).guard ClearsClaims) (deliveredTwice.take 10) (.init rfl)
    (fun w => w.life.store.tasks.any fun t => t.attempts.any fun a =>
      a.q2TaskId = some 2 ∧ a.success = some true) (by decide)
  obtain ⟨t, ht, hp⟩ := List.any_eq_true.mp hp
  obtain ⟨a, ha, hp⟩ := List.any_eq_true.mp hp
  obtain ⟨hq, hs⟩ := of_decide_eq_true hp
  have hreach := StepSystem.reachWhen_of_guard hr
  exact ⟨w, hreach, ⟨t, ht, a, ha, hq, hs⟩, (executions_bounded hreach ht ha hq).1⟩

theorem target_called_again : ∃ w, (workerSystem 1).Reach w ∧
    (∃ t ∈ w.life.store.tasks, ∃ a ∈ t.attempts, a.q2TaskId = some 2) ∧
    (w.calls.filter fun d => d.q2TaskId = 2).length = 2 ∧
    (∃ g ∈ w.grants, ∃ g' ∈ w.grants, g.delivery.q2TaskId = 2 ∧ g'.delivery.q2TaskId = 2 ∧
      g.verdict = .first ∧ g'.verdict = .first ∧ g.delivery ≠ g'.delivery) ∧
    ∃ d ∈ w.calls, d.q2TaskId = 2 ∧ d.late = true := by
  obtain ⟨w, hr, hp⟩ := StepSystem.exists_reach_of_run (workerSystem 1)
    deliveredTwice (.init rfl)
    (fun w => (w.life.store.tasks.any fun t => t.attempts.any fun a => a.q2TaskId = some 2) &&
      ((w.calls.filter fun d => d.q2TaskId = 2).length = 2 : Bool) &&
      (w.grants.any fun g => w.grants.any fun g' => g.delivery.q2TaskId = 2 ∧
        g'.delivery.q2TaskId = 2 ∧ g.verdict = .first ∧ g'.verdict = .first ∧
        g.delivery ≠ g'.delivery) &&
      w.calls.any fun d => d.q2TaskId = 2 ∧ d.late = true) (by decide)
  simp only [Bool.and_eq_true, List.any_eq_true, decide_eq_true_eq] at hp
  obtain ⟨⟨⟨ht, hn⟩, hg⟩, hd⟩ := hp
  exact ⟨w, hr, ht, hn, hg, hd⟩

end Workers
end Qraft
