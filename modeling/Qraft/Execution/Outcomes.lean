import Qraft.Lifecycle.Decisions
import Qraft.Execution.Bound

/-! What decides an attempt when workers, monitors and sweeps interleave: every result that
is ever handled goes back to a delivery that was admitted, or to one that was refused. -/
namespace Qraft
open TaskStore

namespace Workers

/-- `claim_delivery` let the delivery pass, or found no attempt behind its message. -/
def Admitted (w : Workers) (d : Delivery) : Prop :=
  (∃ v : Verdict, v.Admits ∧ ⟨d, v⟩ ∈ w.grants) ∨ w.life.store.Unowned d.q2TaskId

/-- What a phase owes to the guard. -/
def Accounts (w : Workers) (d : Delivery) : Phase → Prop
  | .claiming _ | .repeating _ | .lookingUp _ => True
  | .granted => w.Admitted d
  | .running => w.Admitted d ∧ d ∈ w.calls
  | .reporting success exceptionClass _ => (w.Admitted d ∧ d ∈ w.calls) ∨
      (⟨d, .refused⟩ ∈ w.grants ∧ success = false ∧ exceptionClass = some "RedeliveredAttempt")

/-- A context in which every phase is accounted for. -/
def Fits (w : Workers) (ctx : WorkerContext) : Prop :=
  (∀ q v, ctx.deliveryClaim = some (q, v) → v ≠ .unowned) ∧
    ∀ ex, ctx.execution = some ex →
      ex.delivery.q2TaskId < w.life.store.nextId ∧ w.Accounts ex.delivery ex.phase

/-- A result that speaks for the delivery it is reported under. -/
def Vouches (w : Workers) (r : Report) : Prop :=
  r.result.id = r.delivery.q2TaskId ∧
    w.Accounts r.delivery (.reporting r.result.success r.result.exceptionClass r.result.retryAfter)

structure Accounted (w : Workers) : Prop where
  contexts : ∀ ctx ∈ w.contexts, w.Fits ctx
  reported : ∀ r ∈ w.reported, w.Vouches r
  reports : ∀ r ∈ w.reports, r ∈ w.reported
  results : ∀ r ∈ w.life.results, ∃ report ∈ w.reported, report.result = r

structure Grows (w w' : Workers) : Prop where
  store : Continues w.life.store w'.life.store
  grants : ∀ g ∈ w.grants, g ∈ w'.grants
  calls : ∀ d ∈ w.calls, d ∈ w'.calls

section
variable {w w' : Workers} (h : w.Grows w')
include h

theorem Admitted.mono {d : Delivery} (ha : w.Admitted d) : w'.Admitted d := by
  rcases ha with ⟨v, hv, hg⟩ | hu
  · exact .inl ⟨v, hv, h.grants _ hg⟩
  · exact .inr (hu.continues h.store)

theorem Accounts.mono {d : Delivery} {p : Phase} (ha : w.Accounts d p) : w'.Accounts d p := by
  cases p with
  | claiming caller => trivial
  | repeating caller => trivial
  | lookingUp caller => trivial
  | granted => exact Admitted.mono h ha
  | running => exact ⟨Admitted.mono h ha.1, h.calls d ha.2⟩
  | reporting success exc retryAfter =>
    exact ha.imp (fun ha => ⟨Admitted.mono h ha.1, h.calls d ha.2⟩) fun ha => ⟨h.grants _ ha.1, ha.2⟩

theorem Fits.mono {ctx : WorkerContext} (hf : w.Fits ctx) : w'.Fits ctx := by
  refine ⟨hf.1, ?_⟩
  intro ex hex
  obtain ⟨hq, ha⟩ := hf.2 ex hex
  exact ⟨Nat.lt_of_lt_of_le hq h.store.nextId, Accounts.mono h ha⟩

/-- A step accounts for what it adds. -/
private theorem Accounted.grows (ha : w.Accounted)
    (hctx : ∀ ctx ∈ w'.contexts, ctx ∈ w.contexts ∨ w'.Fits ctx)
    (hkeep : ∀ r ∈ w.reported, r ∈ w'.reported)
    (hnew : ∀ r ∈ w'.reported, r ∈ w.reported ∨ w'.Vouches r)
    (hreports : ∀ r ∈ w'.reports, r ∈ w.reports ∨ r ∈ w'.reported)
    (hresults : ∀ r ∈ w'.life.results, r ∈ w.life.results ∨ ∃ report ∈ w'.reported, report.result = r) :
    w'.Accounted := by
  refine ⟨?_, ?_, ?_, ?_⟩
  · intro ctx hc
    exact (hctx ctx hc).elim (fun hc => Fits.mono h (ha.contexts ctx hc)) fun hf => hf
  · intro r hr
    rcases hnew r hr with hr | hv
    · obtain ⟨hid, hacc⟩ := ha.reported r hr
      exact ⟨hid, Accounts.mono h hacc⟩
    · exact hv
  · intro r hr
    exact (hreports r hr).elim (fun hr => hkeep r (ha.reports r hr)) fun hr => hr
  · intro r hr
    rcases hresults r hr with hr | hv
    · obtain ⟨report, hm, he⟩ := ha.results r hr
      exact ⟨report, hkeep report hm, he⟩
    · exact hv

end

/-- What the workers write to the task table is a step of it. -/
theorem step_life {limit : Nat} {w w' : Workers} {env : Env} {e : WorkerEvent}
    (h : w.step limit env e = some w') : w'.life = w.life ∨
      ∃ e', w.life.step limit env e' = some w'.life ∧ (e = .life e' ∨ ambient e' = false) := by
  have hswap (c : Nat) (ctx : WorkerContext) (d : Delivery) (caller : Caller) (write : LeaseWrite)
      (v : Verdict) (otherwise : Phase) (hw : write = .start ∨ write = .again) :
      (w.swap limit env.now c ctx d caller write v otherwise).life = w.life ∨
        ∃ e', w.life.step limit env e' = some (w.swap limit env.now c ctx d caller write v otherwise).life ∧
          (e = .life e' ∨ ambient e' = false) := by
    unfold swap
    split
    · refine .inr ⟨.lease d.q2TaskId write, rfl, .inr ?_⟩
      rcases hw with rfl | rfl
      · rfl
      · rfl
    · exact .inl rfl
  cases e with
  | life e =>
    simp only [step] at h
    split at h
    · obtain ⟨life, hl, rfl⟩ := Option.map_eq_some_iff.mp h
      exact .inr ⟨e, hl, .inl rfl⟩
    · cases h
  | spawn threaded =>
    cases h
    exact .inl rfl
  | receive c q =>
    obtain ⟨ctx, _, h⟩ := Option.bind_eq_some_iff.mp h
    split at h
    · cases h
      exact .inl rfl
    · cases h
  | advance c =>
    obtain ⟨ctx, _, h⟩ := Option.bind_eq_some_iff.mp h
    obtain ⟨ex, _, h⟩ := Option.bind_eq_some_iff.mp h
    cases hp : ex.phase with
    | claiming caller =>
      rw [hp] at h
      simp only [advance] at h
      split at h
      · split at h
        · cases h
          exact .inl rfl
        · cases h
          exact hswap _ _ _ _ _ _ _ (.inl rfl)
      · cases h
        exact hswap _ _ _ _ _ _ _ (.inl rfl)
    | repeating caller =>
      rw [hp] at h
      cases h
      exact hswap _ _ _ _ _ _ _ (.inr rfl)
    | lookingUp caller =>
      rw [hp] at h
      simp only [advance] at h
      split at h
      · cases h
        exact .inl rfl
      · cases h
        exact .inl rfl
    | granted =>
      rw [hp] at h
      cases h
      exact .inl rfl
    | running =>
      rw [hp] at h
      cases h
    | reporting success exc retryAfter =>
      rw [hp] at h
      cases h
  | finish c success exc retryAfter =>
    obtain ⟨ctx, _, h⟩ := Option.bind_eq_some_iff.mp h
    obtain ⟨ex, _, h⟩ := Option.bind_eq_some_iff.mp h
    split at h
    · cases h
      exact .inr ⟨.lease ex.delivery.q2TaskId .returned, rfl, .inr rfl⟩
    · cases h
  | report c =>
    obtain ⟨ctx, _, h⟩ := Option.bind_eq_some_iff.mp h
    obtain ⟨ex, _, h⟩ := Option.bind_eq_some_iff.mp h
    simp only at h
    split at h
    · cases h
      exact .inl rfl
    · cases h
  | save i =>
    obtain ⟨r, _, h⟩ := Option.bind_eq_some_iff.mp h
    obtain ⟨life, hl, rfl⟩ := Option.map_eq_some_iff.mp h
    exact .inr ⟨.saveResult r.result, hl, .inr rfl⟩
  | lose i =>
    cases h
    exact .inl rfl
  | crash c =>
    obtain ⟨ctx, _, rfl⟩ := Option.map_eq_some_iff.mp h
    exact .inl rfl

/-- The task table under the workers runs as it does alone. -/
theorem reach_life {limit : Nat} {w : Workers} (h : (workerSystem limit).Reach w) :
    (lifecycleSystem limit).Reach w.life := by
  apply h.invariant fun w => (lifecycleSystem limit).Reach w.life
  · rintro w rfl
    exact .init rfl
  · intro w e w' hw _ hstep
    rcases step_life hstep with he | ⟨e', hstep', _⟩
    · rw [he]
      exact hw
    · exact .step hw (e := (e', e.2)) trivial hstep'

/-- What a step makes of the attempts behind the messages. -/
theorem step_continues {limit : Nat} {w w' : Workers} {env : Env} {e : WorkerEvent}
    (hd : w.life.store.Distinct) (h : w.step limit env e = some w') :
    Continues w.life.store w'.life.store := by
  rcases step_life h with he | ⟨e', hstep, _⟩
  · rw [he]
    exact .refl _
  · exact Lifecycle.step_continues hd hstep

/-- One context moves on, and no result is handed on. -/
private theorem Accounted.places {w w' : Workers} (ha : w.Accounted) (h : w.Grows w') (c : Nat)
    (ctx' : WorkerContext) (hset : w'.contexts = w.contexts.set c ctx') (hfit : w'.Fits ctx')
    (hreports : w'.reports = w.reports) (hreported : w'.reported = w.reported)
    (hresults : w'.life.results = w.life.results) : w'.Accounted := by
  refine Accounted.grows h ha ?_ ?_ ?_ ?_ ?_
  · intro ctx hc
    rw [hset] at hc
    rcases List.mem_or_eq_of_mem_set hc with hc | rfl
    · exact .inl hc
    · exact .inr hfit
  · exact fun r hr => hreported ▸ hr
  · exact fun r hr => .inl (hreported ▸ hr)
  · exact fun r hr => .inl (hreports ▸ hr)
  · exact fun r hr => .inl (hresults ▸ hr)

/-- A verdict takes a delivery to a phase it accounts for. -/
private theorem accounts_next {w : Workers} {d : Delivery} {v : Verdict} (caller : Caller)
    (hg : ⟨d, v⟩ ∈ w.grants) (hu : v = .unowned → w.life.store.Unowned d.q2TaskId) :
    w.Accounts d (Caller.next caller v) := by
  cases caller with
  | preExecute => trivial
  | guardDelivery =>
    cases v with
    | first => exact .inl ⟨.first, .inl rfl, hg⟩
    | repeated => exact .inl ⟨.repeated, .inr rfl, hg⟩
    | refused => exact .inr ⟨hg, rfl, rfl⟩
    | unowned => exact .inr (hu rfl)

section
variable {limit : Nat} {w : Workers} (ha : w.Accounted) {c : Nat} {ctx : WorkerContext} {ex : Execution}
  (hc : w.contexts[c]? = some ctx) (hex : ctx.execution = some ex)
include ha hc hex

/-- `claim_delivery` returns. -/
private theorem Accounted.settle (ctx' : WorkerContext) (caller : Caller) (v : Verdict)
    (hm : ∀ q v, ctx'.deliveryClaim = some (q, v) → ctx.deliveryClaim = some (q, v) ∨ v ≠ .unowned)
    (hu : v = .unowned → w.life.store.Unowned ex.delivery.q2TaskId) :
    (w.settle c ctx' ex.delivery caller v).Accounted := by
  have hfits := ha.contexts ctx (List.mem_of_getElem? hc)
  refine ha.places ⟨.refl _, fun g => List.mem_append_left _, fun d hd => hd⟩ c _ rfl ⟨?_, ?_⟩ rfl rfl rfl
  · intro q v hq
    exact (hm q v hq).elim (hfits.1 q v) fun hne => hne
  · intro ex' hex'
    obtain rfl := Option.some.inj hex'
    refine ⟨(hfits.2 ex hex).1, accounts_next caller ?_ hu⟩
    exact List.mem_append_right _ (List.mem_singleton.mpr rfl)

private theorem Accounted.swap (now : Time) (caller : Caller) (write : LeaseWrite) (v : Verdict)
    (otherwise : Phase) (hv : v ≠ .unowned) (ho : w.Accounts ex.delivery otherwise) :
    (w.swap limit now c ctx ex.delivery caller write v otherwise).Accounted := by
  have hfits := ha.contexts ctx (List.mem_of_getElem? hc)
  unfold Workers.swap
  split
  · have hcont := continues_lease w.life.store limit ex.delivery.q2TaskId write now
    refine ha.places ⟨hcont, fun g => List.mem_append_left _, fun d hd => hd⟩ c _ rfl ⟨?_, ?_⟩ rfl rfl rfl
    · intro q v' hq
      obtain ⟨-, rfl⟩ := Prod.mk.inj (Option.some.inj hq)
      exact hv
    · intro ex' hex'
      obtain rfl := Option.some.inj hex'
      refine ⟨(hfits.2 ex hex).1, accounts_next caller ?_ fun he => absurd he hv⟩
      exact List.mem_append_right _ (List.mem_singleton.mpr rfl)
  · refine ha.places ⟨.refl _, fun g hg => hg, fun d hd => hd⟩ c _ rfl ⟨hfits.1, ?_⟩ rfl rfl rfl
    intro ex' hex'
    obtain rfl := Option.some.inj hex'
    refine ⟨(hfits.2 ex hex).1, ?_⟩
    cases otherwise <;> exact ho

private theorem Accounted.advance {now : Time} {w' : Workers}
    (hstep : w.advance limit now c ctx ex.delivery ex.phase = some w') : w'.Accounted := by
  have hfits := ha.contexts ctx (List.mem_of_getElem? hc)
  obtain ⟨hissued, hacc⟩ := hfits.2 ex hex
  cases hp : ex.phase with
  | claiming caller =>
    rw [hp] at hstep
    simp only [Workers.advance] at hstep
    split at hstep
    · rename_i q v hmemo
      split at hstep
      · cases hstep
        exact ha.settle hc hex ctx caller v (fun _ _ hq => .inl hq) fun hu => absurd hu (hfits.1 q v hmemo)
      · cases hstep
        exact ha.swap hc hex now caller .start .first (.repeating caller) (by simp) trivial
    · cases hstep
      exact ha.swap hc hex now caller .start .first (.repeating caller) (by simp) trivial
  | repeating caller =>
    rw [hp] at hstep
    cases hstep
    exact ha.swap hc hex now caller .again .repeated (.lookingUp caller) (by simp) trivial
  | lookingUp caller =>
    rw [hp] at hstep
    simp only [Workers.advance] at hstep
    split at hstep
    · cases hstep
      refine ha.settle hc hex _ caller .refused ?_ fun hu => by cases hu
      intro q v hq
      obtain ⟨-, rfl⟩ := Prod.mk.inj (Option.some.inj hq)
      exact .inr (by simp)
    · rename_i hno
      cases hstep
      refine ha.settle hc hex ctx caller .unowned (fun _ _ hq => .inl hq) fun _ => ⟨hissued, ?_⟩
      exact fun a hb => hno (matchesMessage_iff.mpr ⟨a, hb, rfl⟩)
  | granted =>
    rw [hp] at hstep hacc
    cases hstep
    refine ha.places ⟨.refl _, fun g hg => hg, fun d => List.mem_append_left _⟩ c _ rfl ⟨hfits.1, ?_⟩
      rfl rfl rfl
    intro ex' hex'
    obtain rfl := Option.some.inj hex'
    exact ⟨hissued, hacc, List.mem_append_right _ (List.mem_singleton.mpr rfl)⟩
  | running =>
    rw [hp] at hstep
    cases hstep
  | reporting success exc retryAfter =>
    rw [hp] at hstep
    cases hstep

end

theorem Accounted.step {limit : Nat} {w w' : Workers} {env : Env} {e : WorkerEvent} (ha : w.Accounted)
    (hd : w.life.store.Distinct) (hstep : w.step limit env e = some w') : w'.Accounted := by
  have hcont := step_continues hd hstep
  cases e with
  | life e =>
    simp only [Workers.step] at hstep
    split at hstep
    · rename_i hamb
      obtain ⟨life, hl, rfl⟩ := Option.map_eq_some_iff.mp hstep
      refine Accounted.grows ⟨hcont, fun g hg => hg, fun d hd => hd⟩ ha (fun _ hc => .inl hc)
        (fun _ hr => hr) (fun _ hr => .inl hr) (fun _ hr => .inl hr) ?_
      intro r hr
      rcases Lifecycle.step_results hl hr with hr | rfl
      · exact .inl hr
      · cases hamb
    · cases hstep
  | spawn threaded =>
    cases hstep
    refine Accounted.grows ⟨hcont, fun g hg => hg, fun d hd => hd⟩ ha ?_ (fun _ hr => hr)
      (fun _ hr => .inl hr) (fun _ hr => .inl hr) fun _ hr => .inl hr
    intro ctx hc
    rcases List.mem_append.mp hc with hc | hc
    · exact .inl hc
    · obtain rfl := List.mem_singleton.mp hc
      refine .inr ⟨?_, ?_⟩
      · intro q v hq
        cases hq
      · intro ex hex
        cases hex
  | receive c q =>
    obtain ⟨ctx, hc, hstep⟩ := Option.bind_eq_some_iff.mp hstep
    split at hstep
    · rename_i hidle
      cases hstep
      have hfits := ha.contexts ctx (List.mem_of_getElem? hc)
      refine ha.places ⟨hcont, fun g hg => hg, fun d hd => hd⟩ c _ rfl ⟨hfits.1, ?_⟩ rfl rfl rfl
      intro ex hex
      obtain rfl := Option.some.inj hex
      exact ⟨hidle.2, trivial⟩
    · cases hstep
  | advance c =>
    obtain ⟨ctx, hc, hstep⟩ := Option.bind_eq_some_iff.mp hstep
    obtain ⟨ex, hex, hstep⟩ := Option.bind_eq_some_iff.mp hstep
    exact ha.advance hc hex hstep
  | finish c success exc retryAfter =>
    obtain ⟨ctx, hc, hstep⟩ := Option.bind_eq_some_iff.mp hstep
    obtain ⟨ex, hex, hstep⟩ := Option.bind_eq_some_iff.mp hstep
    split at hstep
    · rename_i hrun
      cases hstep
      have hfits := ha.contexts ctx (List.mem_of_getElem? hc)
      obtain ⟨hissued, hacc⟩ := hfits.2 ex hex
      rw [hrun] at hacc
      have hgrow : w.Grows ((w.setStore
          (w.life.store.lease limit ex.delivery.q2TaskId .returned env.now).1).setContext c
          { ctx with execution := some ⟨ex.delivery, .reporting success exc retryAfter⟩ }) :=
        ⟨hcont, fun g hg => hg, fun d hd => hd⟩
      refine ha.places hgrow c _ rfl ⟨hfits.1, ?_⟩ rfl rfl rfl
      intro ex' hex'
      obtain rfl := Option.some.inj hex'
      exact ⟨hissued, .inl ⟨Admitted.mono hgrow hacc.1, hacc.2⟩⟩
    · cases hstep
  | report c =>
    obtain ⟨ctx, hc, hstep⟩ := Option.bind_eq_some_iff.mp hstep
    obtain ⟨ex, hex, hstep⟩ := Option.bind_eq_some_iff.mp hstep
    simp only at hstep
    split at hstep
    · rename_i success exc retryAfter hp
      cases hstep
      have hfits := ha.contexts ctx (List.mem_of_getElem? hc)
      obtain ⟨_, hacc⟩ := hfits.2 ex hex
      rw [hp] at hacc
      refine Accounted.grows ⟨hcont, fun g hg => hg, fun d hd => hd⟩ ha ?_
        (fun r hr => List.mem_append_left _ hr) ?_ ?_ (fun _ hr => .inl hr)
      · intro y hy
        rcases List.mem_or_eq_of_mem_set hy with hy | rfl
        · exact .inl hy
        · refine .inr ⟨?_, ?_⟩
          · intro q v hq
            simp only at hq
            split at hq
            · cases hq
            · exact hfits.1 q v hq
          · intro ex' hex'
            cases hex'
      · intro r hr
        rcases List.mem_append.mp hr with hr | hr
        · exact .inl hr
        · obtain rfl := List.mem_singleton.mp hr
          exact .inr ⟨rfl, hacc⟩
      · intro r hr
        exact (List.mem_append.mp hr).imp id fun hr => List.mem_append_right _ hr
    · cases hstep
  | save i =>
    obtain ⟨r, hr, hstep⟩ := Option.bind_eq_some_iff.mp hstep
    obtain ⟨life, hl, rfl⟩ := Option.map_eq_some_iff.mp hstep
    refine Accounted.grows ⟨hcont, fun g hg => hg, fun d hd => hd⟩ ha (fun _ hc => .inl hc)
      (fun _ hr => hr) (fun _ hr => .inl hr)
      (fun _ hr => .inl ((List.eraseIdx_sublist _ _).subset hr)) ?_
    intro x hx
    rcases Lifecycle.step_results hl hx with hx | he
    · exact .inl hx
    · cases he
      exact .inr ⟨r, ha.reports r (List.mem_of_getElem? hr), rfl⟩
  | lose i =>
    cases hstep
    exact Accounted.grows ⟨hcont, fun g hg => hg, fun d hd => hd⟩ ha (fun _ hc => .inl hc)
      (fun _ hr => hr) (fun _ hr => .inl hr)
      (fun _ hr => .inl ((List.eraseIdx_sublist _ _).subset hr)) fun _ hr => .inl hr
  | crash c =>
    obtain ⟨ctx, hc, rfl⟩ := Option.map_eq_some_iff.mp hstep
    refine ha.places ⟨hcont, fun g hg => hg, fun d hd => hd⟩ c _ rfl ⟨?_, ?_⟩ rfl rfl rfl
    · intro q v hq
      cases hq
    · intro ex hex
      cases hex

theorem reach_accounted {limit : Nat} {w : Workers} (h : (workerSystem limit).Reach w) :
    w.Accounted := by
  apply h.invariant_of (fun w => w.life.store.Distinct) Accounted
  · exact fun w hw => Lifecycle.reach_distinct (reach_life hw)
  · rintro w rfl
    refine ⟨?_, ?_, ?_, ?_⟩ <;> exact fun x hx => absurd hx List.not_mem_nil
  · intro w e w' hd hw _ hstep
    exact hw.step hd hstep

/-- An attempt is decided by the result of a delivery of its own message, one that was
admitted and ran or one that was refused, or by a reaper whose read of the row showed a
heartbeat before the cutoff, or no start and a sweep that found the message not queued. -/
theorem decided_only_by {limit : Nat} {w w' : Workers} {e : WorkerEvent × Env}
    (h : (workerSystem limit).Reach w) (hstep : (workerSystem limit).step w e = some w')
    {t t' : QraftTask} {a a' : QraftTaskAttempt} (ht : t ∈ w.life.store.tasks) (ha : a ∈ t.attempts)
    (ht' : t' ∈ w'.life.store.tasks) (ha' : a' ∈ t'.attempts) (hid : a'.id = a.id)
    (hn : a.success = none) (hs : a'.success ≠ none) :
    (∃ i, ∃ r ∈ w.reported, e.1 = .life (.handleResult i) ∧ w.life.results[i]? = some r.result ∧
      a.q2TaskId = some r.delivery.q2TaskId ∧
      ((r.delivery ∈ w.calls ∧ ∃ v : Verdict, v.Admits ∧ ⟨r.delivery, v⟩ ∈ w.grants) ∨
        (⟨r.delivery, .refused⟩ ∈ w.grants ∧ r.result.success = false ∧
          r.result.exceptionClass = some "RedeliveredAttempt"))) ∨
    ∃ i rd, e.1 = .life (.reap i) ∧ w.life.reads[i]? = some rd ∧ rd.row.id = a.id ∧
      rd.row.success = none ∧
      ((∃ beat, rd.row.heartbeatAt = some beat ∧ beat < rd.heartbeatCutoff) ∨
        (rd.row.heartbeatAt = none ∧ rd.row.dateStarted = none ∧ a.id ∈ w.life.unqueued)) := by
  obtain ⟨e, env⟩ := e
  have hswept := Lifecycle.reach_swept (reach_life h)
  have haccounted := reach_accounted h
  have hundecided (b : QraftTaskAttempt) (u : QraftTask) (hu : u ∈ w.life.store.tasks)
      (hb : b ∈ u.attempts) (hbid : b.id = a'.id) : b.success ≠ a'.success := by
    obtain ⟨-, rfl⟩ := hswept.distinct.eq_of_id hu hb ht ha (hbid.trans hid)
    rw [hn]
    exact hs.symm
  rcases step_life hstep with he | ⟨e', hlife, hamb⟩
  · rw [he] at ht'
    exact absurd rfl (hundecided a' t' ht' ha' rfl)
  · rcases Lifecycle.step_decides hswept.distinct hlife ht' ha' hs with ⟨u, hu, b, hb, hbid, hbs⟩ | hdec
    · exact absurd hbs (hundecided b u hu hb hbid)
    · obtain ⟨x, hx⟩ : ∃ x, a.id = x := ⟨_, rfl⟩
      rw [hid, hx] at hdec
      cases hdec with
      | @result i r u b hr hu hb hq =>
        obtain ⟨-, rfl⟩ := hswept.distinct.eq_of_id ht ha hu hb hx
        obtain rfl : e = .life (.handleResult i) := hamb.resolve_right fun hf => by cases hf
        obtain ⟨report, hm, rfl⟩ := haccounted.results r (List.mem_of_getElem? hr)
        obtain ⟨hrid, hacc⟩ := haccounted.reported report hm
        rw [hrid] at hq
        refine .inl ⟨i, report, hm, rfl, hr, hq, ?_⟩
        rcases hacc with ⟨⟨v, hv⟩ | hu', hcall⟩ | hrefused
        · exact .inl ⟨hcall, v, hv⟩
        · exact absurd ⟨u, hu, hb, hq⟩ (hu'.2 a)
        · exact .inr hrefused
      | @reaped i rd hr hnone hbeat =>
        obtain rfl : e = .life (.reap i) := hamb.resolve_right fun hf => by cases hf
        refine .inr ⟨i, rd, rfl, hr, hx.symm, hnone, ?_⟩
        cases hb : rd.row.heartbeatAt with
        | some beat => exact .inl ⟨beat, rfl, hbeat beat hb⟩
        | none =>
          obtain ⟨hstarted, hunqueued⟩ := hswept.reads rd (List.mem_of_getElem? hr) hb
          exact .inr ⟨rfl, hstarted, hx ▸ hunqueued⟩

/-- The message of a running, heartbeating attempt is delivered to a second worker. -/
def redelivered : List (WorkerEvent × Env) := [
  atTime 1 (.life (.asyncTask Lifecycle.work none none)),
  atTime 1 (.spawn false),
  atTime 1 (.spawn false),
  atTime 2 (.receive 0 2),
  atTime 3 (.advance 0),
  atTime 3 (.advance 0),
  atTime 3 (.advance 0),
  atTime 4 (.receive 1 2),
  atTime 5 (.advance 1),
  atTime 5 (.advance 1),
  atTime 5 (.advance 1),
  atTime 6 (.advance 1),
  atTime 7 (.report 1),
  atTime 8 (.save 0),
  atTime 9 (.life (.lease 2 .touch))]

theorem decided_only_by_refusal : ∃ w, (workerSystem 1).Reach w ∧
    ∃ t ∈ w.life.store.tasks, ∃ a ∈ t.attempts, a.success = none ∧ ∃ r ∈ w.reported,
      w.life.results[0]? = some r.result ∧ a.q2TaskId = some r.delivery.q2TaskId ∧
      ((r.delivery ∈ w.calls ∧ ∃ v : Verdict, v.Admits ∧ ⟨r.delivery, v⟩ ∈ w.grants) ∨
        (⟨r.delivery, .refused⟩ ∈ w.grants ∧ r.result.success = false ∧
          r.result.exceptionClass = some "RedeliveredAttempt")) := by
  obtain ⟨w, hr, hp⟩ := StepSystem.exists_reach_of_run (workerSystem 1) redelivered
    (.init rfl)
    (fun w => ((workerSystem 1).step w (atTime 10 (.life (.handleResult 0)))).any fun w' =>
      w.life.store.tasks.any fun t => w'.life.store.tasks.any fun t' => t.attempts.any fun a =>
        t'.attempts.any fun a' => a'.id = a.id ∧ a.success = none ∧ a'.success ≠ none) (by decide)
  obtain ⟨w', hstep, hp⟩ := (Option.any_eq_true _ _).mp hp
  obtain ⟨t, ht, hp⟩ := List.any_eq_true.mp hp
  obtain ⟨t', ht', hp⟩ := List.any_eq_true.mp hp
  obtain ⟨a, ha, hp⟩ := List.any_eq_true.mp hp
  obtain ⟨a', ha', hp⟩ := List.any_eq_true.mp hp
  obtain ⟨hid, hn, hs⟩ := of_decide_eq_true hp
  rcases decided_only_by hr hstep ht ha ht' ha' hid hn hs with
    ⟨i, r, hm, he, hres, hrest⟩ | ⟨i, rd, he, _⟩
  · obtain rfl : 0 = i := LifecycleEvent.handleResult.inj (WorkerEvent.life.inj he)
    exact ⟨w, hr, t, ht, a, ha, hn, r, hm, hres, hrest⟩
  · cases WorkerEvent.life.inj he

theorem live_attempt_decided_by_refusal : ∃ w w', (workerSystem 1).Reach w ∧
    (workerSystem 1).step w (atTime 10 (.life (.handleResult 0))) = some w' ∧
    (∃ r ∈ w.reported, w.life.results[0]? = some r.result ∧ ⟨r.delivery, .refused⟩ ∈ w.grants) ∧
    (∃ ctx ∈ w.contexts, ∃ ex, ctx.execution = some ex ∧ ex.delivery.q2TaskId = 2 ∧
      ex.phase = .running ∧ ⟨ex.delivery, .first⟩ ∈ w.grants) ∧
    ∃ t ∈ w.life.store.tasks, ∃ t' ∈ w'.life.store.tasks, ∃ a ∈ t.attempts, ∃ a' ∈ t'.attempts,
      a'.id = a.id ∧ a.q2TaskId = some 2 ∧ a.heartbeatAt = some 9 ∧ a.success = none ∧
      a'.success = some false ∧ a'.exceptionClass = some "RedeliveredAttempt" := by
  obtain ⟨w, hr, hp⟩ := StepSystem.exists_reach_of_run (workerSystem 1) redelivered
    (.init rfl)
    (fun w => ((workerSystem 1).step w (atTime 10 (.life (.handleResult 0)))).any fun w' =>
      (w.reported.any fun r => w.life.results[0]? = some r.result ∧ ⟨r.delivery, .refused⟩ ∈ w.grants) &&
      (w.contexts.any fun ctx => ctx.execution.any fun ex => ex.delivery.q2TaskId = 2 ∧
        ex.phase = .running ∧ ⟨ex.delivery, .first⟩ ∈ w.grants) &&
      w.life.store.tasks.any fun t => w'.life.store.tasks.any fun t' => t.attempts.any fun a =>
        t'.attempts.any fun a' => a'.id = a.id ∧ a.q2TaskId = some 2 ∧ a.heartbeatAt = some 9 ∧
          a.success = none ∧ a'.success = some false ∧
          a'.exceptionClass = some "RedeliveredAttempt") (by decide)
  obtain ⟨w', hstep, hp⟩ := (Option.any_eq_true _ _).mp hp
  simp only [Bool.and_eq_true, List.any_eq_true, Option.any_eq_true, decide_eq_true_eq] at hp
  obtain ⟨⟨hreport, hrunning⟩, t, ht, t', ht', a, ha, a', ha', hrest⟩ := hp
  exact ⟨w, w', hr, hstep, hreport, hrunning, t, ht, t', ht', a, ha, a', ha', hrest⟩

end Workers
end Qraft
