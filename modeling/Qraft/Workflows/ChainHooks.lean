import Qraft.Foundations.InFlight
import Qraft.Workflows.ChainFence

/-! The hook of each settlement: queued with a cancellation, and by the process that settled the
chain after any other. -/
namespace Qraft

/-- The settlement a process has still to announce. -/
def ChainPhase.announcement : ChainPhase → Option (QraftChainModel × HookType × Nat)
  | .announcing row hookType settlement => some (row, hookType, settlement)
  | _ => none

def WorkflowStatus.hookType : WorkflowStatus → HookType
  | .succeeded => .success
  | .cancelled => .cancelled
  | _ => .failure

namespace ChainState

/-- What processes have still to announce. -/
def outstanding (s : ChainState) : List (QraftChainModel × HookType × Nat) :=
  s.routings.filterMap fun r => r.phase.announcement

/-- The hooks sent for a settlement. -/
def sent (s : ChainState) (settlement : Nat) : List WorkflowMessage :=
  s.hookTable.hooks.filter fun m => m.settlement = settlement

/-- How often the hook of a settlement was dispatched, or is still to be. -/
def announcements (s : ChainState) (settlement : Nat) : Nat :=
  (s.sent settlement).length + s.outstanding.countP fun x => x.2.2 = settlement

/-- The dispatch of a hook queues it, if it is configured. -/
def claims (s : ChainState) (row : QraftChainModel) (hookType : HookType) (raises : Bool) : Bool :=
  (row.hookOf hookType).isNone || s.hookTable.admits hookType raises

/-- No process dies with a hook to dispatch, no dispatch by a process finds a row of its type in the
table, and its enqueue does not raise. -/
def sparesDispatch (s : ChainState) : ChainEvent → Bool
  | .announce k raises => s.routings[k]?.all fun r => r.phase.announcement.all fun x => s.claims x.1 x.2.1 raises
  | .crash k => s.routings[k]?.all fun r => r.phase.announcement.all fun x => (x.1.hookOf x.2.1).isNone
  | _ => true

/-- The same of the dispatch that a cancellation makes. -/
def sparesAnnouncement (s : ChainState) : ChainEvent → Bool
  | .reject _ raises => s.claims s.chain .cancelled raises
  | .cancel _ raises => (s.chain.cancel 0).isNone || s.claims s.chain .cancelled raises
  | e => s.sparesDispatch e

/-- Every settlement whose outcome has a hook has been announced once, or is still to be. -/
def Announced (s : ChainState) : Prop :=
  ∀ n o, s.settlements[n]? = some o → s.chain.hookOf o.hookType ≠ none → s.announcements n = 1

/-- Hooks and announcements are those of the settlements. -/
structure Heralded (s : ChainState) : Prop where
  pending : ∀ x ∈ s.outstanding, (∀ ty, x.1.hookOf ty = s.chain.hookOf ty) ∧
    ∃ o, s.settlements[x.2.2]? = some o ∧ x.2.1 = o.hookType
  hooks : ∀ m ∈ s.hookTable.hooks, ∃ o, s.settlements[m.settlement]? = some o ∧ m.hookType = o.hookType ∧
    s.chain.hookOf m.hookType = some m.hook

/-- A dispatch queues one message for its settlement, or none. -/
structure Sends (s t : ChainState) (hook : Option WorkflowHook) (hookType : HookType) (settlement : Nat)
    (ms : List WorkflowMessage) : Prop where
  hooks : t.hookTable.hooks = s.hookTable.hooks ++ ms
  mem : ∀ m ∈ ms, m.hookType = hookType ∧ hook = some m.hook ∧ m.settlement = settlement

/-- What a step means for the hooks. -/
inductive Heralds (s : ChainState) (e : ChainEvent) (t : ChainState) : Prop
  | calm (hh : t.hookTable.hooks = s.hookTable.hooks) (hn : t.settlements = s.settlements)
      (ho : t.outstanding = s.outstanding) (hok : s.sparesAnnouncement e = true)
  | settles {o : WorkflowStatus} {r : QraftChainModel} (hrow : ∀ ty, r.hookOf ty = s.chain.hookOf ty)
      (hh : t.hookTable.hooks = s.hookTable.hooks) (hn : t.settlements = s.settlements ++ [o])
      (ho : t.outstanding.Perm ((r, o.hookType, s.settlements.length) :: s.outstanding))
      (hok : s.sparesAnnouncement e = true)
  | cancels {ms : List WorkflowMessage}
      (hs : Sends s t (s.chain.hookOf .cancelled) .cancelled s.settlements.length ms)
      (hn : t.settlements = s.settlements ++ [.cancelled]) (ho : t.outstanding = s.outstanding)
      (hok : s.sparesAnnouncement e = true ↔ (s.chain.hookOf .cancelled ≠ none → ms.length = 1))
  | parts {x : QraftChainModel × HookType × Nat} {ms : List WorkflowMessage}
      (ho : s.outstanding.Perm (x :: t.outstanding)) (hs : Sends s t (x.1.hookOf x.2.1) x.2.1 x.2.2 ms)
      (hn : t.settlements = s.settlements)
      (hok : s.sparesDispatch e = true ↔ (x.1.hookOf x.2.1 ≠ none → ms.length = 1))
      (hsame : s.sparesAnnouncement e = s.sparesDispatch e)

section
variable {defaults : RetryDefaults} {limit : Nat} {s t : ChainState} {env : Env} {e : ChainEvent}

/-- A dispatch sends its message exactly when its row can be claimed. -/
theorem dispatchWorkflowHook_sends (s : ChainState) (row : QraftChainModel) (ty : HookType) (n : Nat)
    (raises : Bool) : ∃ ms, Sends s (s.dispatchWorkflowHook row ty n raises) (row.hookOf ty) ty n ms ∧
      (s.claims row ty raises = true ↔ (row.hookOf ty ≠ none → ms.length = 1)) := by
  obtain ⟨hook, hconf, hadm, heq⟩ | ⟨hno, heq⟩ := s.hookTable.dispatchOnce_eq ty (row.hookOf ty)
    row.workflowHookContext n raises
  · refine ⟨[⟨ty, hook, row.workflowHookContext, n⟩], ⟨?_, ?_⟩, ?_⟩
    · rw [dispatchWorkflowHook, heq]
    · intro m hm
      rw [List.mem_singleton.mp hm]
      exact ⟨rfl, hconf, rfl⟩
    · rw [claims, hadm, Bool.or_true]
      exact iff_of_true rfl fun _ => rfl
  · refine ⟨[], ⟨?_, fun m hm => absurd hm List.not_mem_nil⟩, ?_⟩
    · rw [dispatchWorkflowHook, heq, List.append_nil]
    · rw [claims, Bool.or_eq_true, Option.isNone_iff_eq_none]
      constructor
      · rintro (hnone | hadm) hconf
        · exact absurd hnone hconf
        · rcases hno with hnone | hrefused
          · exact absurd hnone hconf
          · rw [hadm] at hrefused
            cases hrefused
      · intro hlen
        by_contra hneg
        have hone := hlen fun hnone => hneg (.inl hnone)
        cases hone

/-- What a step does to the hooks. -/
theorem effect_heralds (h : ChainEffect defaults limit s env e t) :
    (∀ ty, t.chain.hookOf ty = s.chain.hookOf ty) ∧ Heralds s e t := by
  -- A process that had nothing to announce, and still has not.
  have quiet {k : Nat} {r : ChainRouting} {phase : ChainPhase} (hr : s.routings[k]? = some r)
      (ha : r.phase.announcement = none) (hb : phase.announcement = none) :
      (s.setRouting k { r with phase }).outstanding = s.outstanding :=
    InFlight.filterMap_set_none hr ha hb
  have ended {k : Nat} {r : ChainRouting} (hr : s.routings[k]? = some r) (ha : r.phase.announcement = none) :
      (s.endRouting k).outstanding = s.outstanding := InFlight.filterMap_eraseIdx_none hr ha
  -- A cancelled row is written.
  have announced (row : WorkflowRow) (raises : Bool) (hst : row.status = .cancelled)
      (hrow : ∀ ty, row.hookOf ty = s.chain.hookOf ty)
      (hok : s.sparesAnnouncement e = s.claims s.chain .cancelled raises) :
      Heralds s e (s.announceCancelled row raises) := by
    obtain ⟨ms, hs, hclaims⟩ := (s.settled row).dispatchWorkflowHook_sends (s.chain.withRow row) .cancelled
      s.settlements.length raises
    have hsame : (s.chain.withRow row).hookOf .cancelled = s.chain.hookOf .cancelled := hrow .cancelled
    rw [hsame] at hs hclaims
    refine .cancels ⟨hs.hooks, hs.mem⟩ ?_ rfl ?_
    · rw [← hst]
      rfl
    · rw [hok, ← hclaims, claims, claims, hsame]
      rfl
  cases h with
  | @quiet e hq =>
    refine ⟨fun _ => rfl, .calm rfl rfl rfl ?_⟩
    cases e with
    | load | refresh | run => rfl
    | cancel i raises =>
      have hnone : s.chain.cancel env.now = none := hq
      have hzero : s.chain.cancel 0 = none := by
        unfold WorkflowRow.cancel at hnone ⊢
        split at hnone
        · cases hnone
        · rename_i hno
          exact if_neg hno
      rw [sparesAnnouncement, hzero]
      rfl
    | _ => exact hq.elim
  | table => exact ⟨fun _ => rfl, .calm rfl rfl rfl rfl⟩
  | @routed i index held attempt a success hd ha hs hq =>
    refine ⟨fun _ => rfl, .calm rfl rfl ?_ rfl⟩
    simp only [outstanding, List.filterMap_append]
    split
    · exact List.append_nil _
    · exact List.append_nil _
  | handled hr hp =>
    refine ⟨fun _ => rfl, .calm rfl rfl (quiet hr (by rw [hp]; rfl) ?_) rfl⟩
    unfold handlePhase
    split
    · rfl
    · split
      · rfl
      · split
        · rfl
        · rfl
  | @announced k r row ty n raises hr hp =>
    obtain ⟨ms, hs, hclaims⟩ := s.dispatchWorkflowHook_sends row ty n raises
    have ha : r.phase.announcement = some (row, ty, n) := by rw [hp]; rfl
    refine ⟨fun _ => rfl, .parts (InFlight.filterMap_cons_set hr ha rfl) ⟨hs.hooks, hs.mem⟩ rfl ?_ rfl⟩
    rw [← hclaims, sparesDispatch, hr, Option.all_some, ha, Option.all_some]
  | finished hr hp hd ht h =>
    exact ⟨fun _ => rfl, .calm rfl rfl (ended hr (by rw [hp]; rfl)) rfl⟩
  | @crashed k =>
    refine ⟨fun _ => rfl, ?_⟩
    cases hr : s.routings[k]? with
    | none =>
      refine .calm rfl rfl ?_ ?_
      · rw [outstanding, endRouting, List.eraseIdx_of_length_le (List.getElem?_eq_none_iff.mp hr), outstanding]
      · show (s.routings[k]?.all _) = true
        rw [hr]
        rfl
    | some r =>
      cases ha : r.phase.announcement with
      | none =>
        refine .calm rfl rfl (ended hr ha) ?_
        show (s.routings[k]?.all _) = true
        rw [hr, Option.all_some, ha]
        rfl
      | some x =>
        have hs : Sends s (s.endRouting k) (x.1.hookOf x.2.1) x.2.1 x.2.2 [] :=
          ⟨(List.append_nil _).symm, fun m hm => absurd hm List.not_mem_nil⟩
        refine .parts (InFlight.filterMap_cons_eraseIdx hr ha) hs rfl ?_ rfl
        rw [sparesDispatch, hr, Option.all_some, ha, Option.all_some, Option.isNone_iff_eq_none]
        exact ⟨fun hnone hconf => absurd hnone hconf, fun hlen => by_contra fun hne => by cases hlen hne⟩
  | raised hr hp _ => exact ⟨fun _ => rfl, .calm rfl rfl (ended hr (by rw [hp]; rfl)) rfl⟩
  | skipped hr hp | spared hr hp =>
    exact ⟨fun _ => rfl, .calm rfl rfl (quiet hr (by rw [hp]; rfl) rfl) rfl⟩
  | runGated | run => exact ⟨WorkflowRow.hookOf_congr rfl rfl rfl, .calm rfl rfl rfl rfl⟩
  | resumed hx hp ht hm =>
    obtain ⟨-, rfl⟩ := WorkflowRow.transitionTo_ok ht
    exact ⟨WorkflowRow.hookOf_congr rfl rfl rfl, .calm rfl rfl rfl rfl⟩
  | approved ht hm =>
    obtain ⟨-, rfl⟩ := WorkflowRow.transitionTo_ok ht
    exact ⟨WorkflowRow.hookOf_congr rfl rfl rfl, .calm rfl rfl rfl rfl⟩
  | rejected ht =>
    obtain ⟨-, rfl⟩ := WorkflowRow.transitionTo_ok ht
    exact ⟨WorkflowRow.hookOf_congr rfl rfl rfl, announced _ _ rfl (WorkflowRow.hookOf_congr rfl rfl rfl) rfl⟩
  | cancelled hrow =>
    have hsome : (s.chain.cancel 0).isNone = false := by
      unfold WorkflowRow.cancel at hrow ⊢
      split at hrow
      · rename_i hopen
        rw [if_pos hopen]
        rfl
      · cases hrow
    obtain ⟨-, -, rfl⟩ := WorkflowRow.cancel_eq_some hrow
    refine ⟨WorkflowRow.hookOf_congr rfl rfl rfl, announced _ _ rfl (WorkflowRow.hookOf_congr rfl rfl rfl) ?_⟩
    rw [sparesAnnouncement, hsome, Bool.false_or]
  | parked hr hp hi hnext hg ht =>
    obtain ⟨-, rfl⟩ := WorkflowRow.transitionTo_ok ht
    exact ⟨WorkflowRow.hookOf_congr rfl rfl rfl, .calm rfl rfl (quiet hr (by rw [hp]; rfl) rfl) rfl⟩
  | advanced hr hp =>
    exact ⟨WorkflowRow.hookOf_congr rfl rfl rfl, .calm rfl rfl (quiet hr (by rw [hp]; rfl) rfl) rfl⟩
  | @succeeded _ _ _ row hr hp hi hlast hrow =>
    obtain ⟨-, -, hrow'⟩ := WorkflowRow.settleWorkflow_eq_some hrow
    have hhook : ∀ ty, row.hookOf ty = s.chain.hookOf ty := by
      rw [hrow']
      exact WorkflowRow.hookOf_congr rfl rfl rfl
    refine ⟨hhook, .settles (o := .succeeded) (r := s.chain.withRow row) hhook rfl ?_
      (InFlight.filterMap_set_cons hr (by rw [hp]; rfl) rfl) rfl⟩
    rw [hrow']
    rfl
  | @failed _ _ row hr hp hrow =>
    obtain ⟨-, -, hrow'⟩ := WorkflowRow.settleWorkflow_eq_some hrow
    have hhook : ∀ ty, row.hookOf ty = s.chain.hookOf ty := by
      rw [hrow']
      exact WorkflowRow.hookOf_congr rfl rfl rfl
    refine ⟨hhook, .settles (o := .failed) (r := s.chain.withRow row) hhook rfl ?_
      (InFlight.filterMap_set_cons hr (by rw [hp]; rfl) rfl) rfl⟩
    rw [hrow']
    rfl

namespace Heralds

/-- Where the list of settlements grows by one. -/
private theorem settlement_cases {l : List WorkflowStatus} {o o' : WorkflowStatus} {n : Nat}
    (h : (l ++ [o])[n]? = some o') : (l[n]? = some o' ∧ n < l.length) ∨ (n = l.length ∧ o' = o) := by
  rcases Nat.lt_or_ge n l.length with hlt | hge
  · rw [List.getElem?_append_left hlt] at h
    exact .inl ⟨h, hlt⟩
  · have hbound := (List.getElem?_eq_some_iff.mp h).1
    rw [List.length_append, List.length_singleton] at hbound
    have hlen : n = l.length := by omega
    rw [hlen, List.getElem?_concat_length] at h
    exact .inr ⟨hlen, (Option.some.inj h).symm⟩

/-- A settlement keeps its place. -/
private theorem settlement_of_append {l : List WorkflowStatus} {o o' : WorkflowStatus} {n : Nat}
    (h : l[n]? = some o') : (l ++ [o])[n]? = some o' := by
  rw [List.getElem?_append_left (List.getElem?_eq_some_iff.mp h).1]
  exact h

theorem heralded (h : Heralds s e t) (hc : ∀ ty, t.chain.hookOf ty = s.chain.hookOf ty) (hh : s.Heralded) :
    t.Heralded := by
  have pending {x : QraftChainModel × HookType × Nat} (hx : x ∈ s.outstanding)
      (hgrow : ∀ (n : Nat) o, s.settlements[n]? = some o → t.settlements[n]? = some o) :
      (∀ ty, x.1.hookOf ty = t.chain.hookOf ty) ∧ ∃ o, t.settlements[x.2.2]? = some o ∧ x.2.1 = o.hookType := by
    obtain ⟨hrow, o, ho, hty⟩ := hh.pending x hx
    exact ⟨fun ty => (hrow ty).trans (hc ty).symm, o, hgrow _ _ ho, hty⟩
  have hooks {m : WorkflowMessage} (hm : m ∈ s.hookTable.hooks)
      (hgrow : ∀ (n : Nat) o, s.settlements[n]? = some o → t.settlements[n]? = some o) :
      ∃ o, t.settlements[m.settlement]? = some o ∧ m.hookType = o.hookType ∧
        t.chain.hookOf m.hookType = some m.hook := by
    obtain ⟨o, ho, hty, hhook⟩ := hh.hooks m hm
    exact ⟨o, hgrow _ _ ho, hty, (hc _).trans hhook⟩
  cases h with
  | calm hsame hn ho =>
    have hgrow : ∀ (n : Nat) o, s.settlements[n]? = some o → t.settlements[n]? = some o := fun n o => hn ▸ id
    exact ⟨fun x hx => pending (ho ▸ hx) hgrow, fun m hm => hooks (hsame ▸ hm) hgrow⟩
  | @settles o row hrow hsame hn ho =>
    have hgrow : ∀ (n : Nat) o, s.settlements[n]? = some o → t.settlements[n]? = some o :=
      fun n o h => hn ▸ settlement_of_append h
    refine ⟨?_, fun m hm => hooks (hsame ▸ hm) hgrow⟩
    intro x hx
    rcases List.mem_cons.mp (ho.mem_iff.mp hx) with rfl | hx
    · refine ⟨fun ty => (hrow ty).trans (hc ty).symm, o, ?_, rfl⟩
      rw [hn, List.getElem?_concat_length]
    · exact pending hx hgrow
  | cancels hs hn ho =>
    have hgrow : ∀ (n : Nat) o, s.settlements[n]? = some o → t.settlements[n]? = some o :=
      fun n o h => hn ▸ settlement_of_append h
    refine ⟨fun x hx => pending (ho ▸ hx) hgrow, ?_⟩
    intro m hm
    rcases List.mem_append.mp (hs.hooks ▸ hm) with hm | hm
    · exact hooks hm hgrow
    · obtain ⟨hty, hhook, hset⟩ := hs.mem m hm
      refine ⟨.cancelled, ?_, hty, ?_⟩
      · rw [hset, hn, List.getElem?_concat_length]
      · rw [hty, hc]
        exact hhook
  | @parts x ms ho hs hn =>
    have hgrow : ∀ (n : Nat) o, s.settlements[n]? = some o → t.settlements[n]? = some o := fun n o => hn ▸ id
    refine ⟨fun y hy => pending (ho.mem_iff.mpr (List.mem_cons_of_mem x hy)) hgrow, ?_⟩
    intro m hm
    rcases List.mem_append.mp (hs.hooks ▸ hm) with hm | hm
    · exact hooks hm hgrow
    · obtain ⟨hty, hhook, hset⟩ := hs.mem m hm
      obtain ⟨hrow, o, hout, htype⟩ := pending (ho.mem_iff.mpr List.mem_cons_self) hgrow
      refine ⟨o, hset ▸ hout, hty.trans htype, ?_⟩
      rw [hty, ← hrow]
      exact hhook

end Heralds

/-- Nothing was sent for a settlement still to come, nor is it to be announced. -/
private theorem Heralded.fresh (h : s.Heralded) : s.announcements s.settlements.length = 0 := by
  have hsent : s.sent s.settlements.length = [] := by
    apply List.filter_eq_nil_iff.mpr
    intro m hm he
    obtain ⟨o, ho, -⟩ := h.hooks m hm
    rw [of_decide_eq_true he, List.getElem?_eq_none (Nat.le_refl _)] at ho
    cases ho
  have hpending : (s.outstanding.countP fun x => x.2.2 = s.settlements.length) = 0 := by
    apply List.countP_eq_zero.mpr
    intro x hx he
    obtain ⟨-, o, ho, -⟩ := h.pending x hx
    rw [of_decide_eq_true he, List.getElem?_eq_none (Nat.le_refl _)] at ho
    cases ho
  rw [announcements, hsent, hpending]
  rfl

/-- The messages of a dispatch are those of its settlement. -/
private theorem Sends.sent {hook : Option WorkflowHook} {ty : HookType} {k : Nat} {ms : List WorkflowMessage}
    (h : Sends s t hook ty k ms) (n : Nat) :
    (t.sent n).length = (s.sent n).length + if k = n then ms.length else 0 := by
  rw [ChainState.sent, h.hooks, List.filter_append, List.length_append, ChainState.sent]
  split
  · rename_i he
    rw [List.filter_eq_self.mpr fun m hm => decide_eq_true ((h.mem m hm).2.2.trans he)]
  · rename_i hne
    rw [List.filter_eq_nil_iff.mpr fun m hm he => hne ((h.mem m hm).2.2.symm.trans (of_decide_eq_true he)),
      List.length_nil]

namespace Heralds

/-- How often a settlement is announced after a step, for one made before it and for one it makes. -/
theorem announcements (h : Heralds s e t) (hh : s.Heralded) {n : Nat} {o : WorkflowStatus}
    (ho : t.settlements[n]? = some o) (hok : s.sparesDispatch e = true)
    (hcancel : o = .cancelled → s.sparesAnnouncement e = true) (hc : s.chain.hookOf o.hookType ≠ none)
    (hold : s.settlements[n]? = some o → s.announcements n = 1) : t.announcements n = 1 := by
  cases h with
  | calm hsame hn hout =>
    rw [ChainState.announcements, ChainState.sent, hsame, hout]
    exact hold (hn ▸ ho)
  | @settles o' row hrow hsame hn hout =>
    rw [ChainState.announcements, ChainState.sent, hsame, hout.countP_eq, List.countP_cons, ← Nat.add_assoc]
    rw [hn] at ho
    rcases settlement_cases ho with ⟨ho, hlt⟩ | ⟨rfl, -⟩
    · rw [decide_eq_false (Nat.ne_of_gt hlt)]
      exact hold ho
    · have hnone := hh.fresh
      rw [ChainState.announcements, ChainState.sent] at hnone
      rw [hnone, decide_eq_true rfl]
      rfl
  | @cancels ms hs hn hout hiff =>
    rw [ChainState.announcements, hs.sent, hout, Nat.add_right_comm]
    rw [hn] at ho
    rcases settlement_cases ho with ⟨ho, hlt⟩ | ⟨rfl, rfl⟩
    · rw [if_neg (Nat.ne_of_gt hlt)]
      exact hold ho
    · have hnone := hh.fresh
      rw [ChainState.announcements] at hnone
      rw [hnone, if_pos rfl, hiff.mp (hcancel rfl) hc]
  | @parts x ms hout hs hn hiff =>
    have hone := hold (hn ▸ ho)
    rw [ChainState.announcements, hout.countP_eq, List.countP_cons] at hone
    rw [ChainState.announcements, hs.sent]
    by_cases he : x.2.2 = n
    · obtain ⟨hrow, o', ho', hty⟩ := hh.pending x (hout.mem_iff.mpr List.mem_cons_self)
      have hsame : o' = o := Option.some.inj (ho'.symm.trans ((congrArg (s.settlements[·]?) he).trans (hn ▸ ho)))
      have hlen := hiff.mp hok (by rw [hrow, hty, hsame]; exact hc)
      rw [decide_eq_true he, if_pos rfl] at hone
      rw [if_pos he, hlen]
      omega
    · rw [decide_eq_false he] at hone
      rw [if_neg he]
      exact hone

/-- A step after which every settlement is announced met the condition. -/
theorem spares (h : Heralds s e t) (hc : ∀ ty, t.chain.hookOf ty = s.chain.hookOf ty) (hh : s.Heralded)
    (hs : s.Announced) (ht : t.Announced) : s.sparesAnnouncement e = true := by
  cases h with
  | calm _ _ _ hok | settles _ _ _ _ hok => exact hok
  | @cancels ms hsends hn hout hiff =>
    refine hiff.mpr fun hconf => ?_
    have hone := ht s.settlements.length .cancelled (by rw [hn, List.getElem?_concat_length]) (by
      rw [hc]
      exact hconf)
    have hnone := hh.fresh
    rw [ChainState.announcements] at hnone
    rw [ChainState.announcements, hsends.sent, hout, if_pos rfl, Nat.add_right_comm, hnone, Nat.zero_add] at hone
    exact hone
  | @parts x ms hout hsends hn hiff hsame =>
    rw [hsame]
    refine hiff.mpr fun hconf => ?_
    obtain ⟨hrow, o, ho, hty⟩ := hh.pending x (hout.mem_iff.mpr List.mem_cons_self)
    have hconf : s.chain.hookOf o.hookType ≠ none := by
      rw [← hty, ← hrow]
      exact hconf
    have hbefore := hs x.2.2 o ho hconf
    have hafter := ht x.2.2 o (hn ▸ ho) (by rw [hc]; exact hconf)
    rw [ChainState.announcements, hout.countP_eq, List.countP_cons, decide_eq_true rfl, if_pos rfl] at hbefore
    rw [ChainState.announcements, hsends.sent, if_pos rfl] at hafter
    omega

end Heralds

theorem reach_heralded (h : (chainSystem defaults limit).Reach s) : s.Heralded := by
  apply h.invariant Heralded
  · rintro s ⟨chain, -, -, -, -, rfl⟩
    exact ⟨fun x hx => absurd hx List.not_mem_nil, fun m hm => absurd hm List.not_mem_nil⟩
  · rintro s e s' hh - hstep
    obtain ⟨u, _, hu, rfl⟩ := step_effect hstep
    obtain ⟨hc, hu⟩ := effect_heralds hu
    exact ⟨(hu.heralded hc hh).pending, (hu.heralded hc hh).hooks⟩

end

/-- A chain with a hook for either outcome. -/
def hooked : ChainState := {
  chain := { id := 0, successHook := some { path := "app.on_success" }, failureHook := some { path := "app.on_failure" } } }

theorem hooked_init (defaults : RetryDefaults) (limit : Nat) : (chainSystem defaults limit).init hooked :=
  ⟨hooked.chain, rfl, rfl, rfl, rfl, rfl⟩

/-- It fails, and the process that settled it has its hook still to dispatch. -/
def failedUnannounced : List (ChainEvent × Env) := [
  clock 1 (.load [plainStep]),
  clock 1 (.run 0 none),
  clock 2 (.table (.saveResult { id := 2, success := false, stopped := 2 })),
  clock 2 (.table (.handleResult 0)),
  clock 3 (.route 0 0),
  clock 3 (.handle 0),
  clock 3 (.stepFailure 0)]

end ChainState
end Qraft
