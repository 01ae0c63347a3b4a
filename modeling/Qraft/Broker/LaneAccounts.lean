import Qraft.Broker.PriorityLanes

/-! The books of the queue: no row is lost or altered, and what a call took are its leases. -/
namespace Qraft
namespace OrmQueue
variable {bulk : Nat} {s s' : OrmQueue} {t : Time}

/-- The table is what was enqueued and not deleted, and a lock that changed is a lease's. -/
structure Ledger (s : OrmQueue) : Prop where
  ids : (s.enqueued.map fun r => r.id).Nodup
  bound : ∀ r ∈ s.enqueued, r.id < s.nextId
  gone : ∀ id ∈ s.deleted, id < s.nextId
  rows : s.rows.map OrmQ.ident = (s.enqueued.filter fun r => r.id ∉ s.deleted).map OrmQ.ident
  locks : ∀ r ∈ s.rows, r ∈ s.enqueued ∨ ∃ c ∈ s.leases, c.row = r.id ∧ c.stamp.lock = r.lock

theorem Ledger.origin (h : s.Ledger) {r : OrmQ} (hr : r ∈ s.rows) : ∃ q ∈ s.enqueued, q.ident = r.ident := by
  have hmem : r.ident ∈ s.rows.map OrmQ.ident := List.mem_map.mpr ⟨r, hr, rfl⟩
  rw [h.rows] at hmem
  obtain ⟨q, hq, he⟩ := List.mem_map.mp hmem
  exact ⟨q, (List.mem_filter.mp hq).1, he⟩

theorem Ledger.row_bound (h : s.Ledger) {r : OrmQ} (hr : r ∈ s.rows) : r.id < s.nextId := by
  obtain ⟨q, hq, he⟩ := h.origin hr
  have hid : q.id = r.id := congrArg Prod.fst he
  rw [← hid]
  exact h.bound q hq

theorem Ledger.rows_nodup (h : s.Ledger) : (s.rows.map fun r => r.id).Nodup := by
  have hids : (s.rows.map fun r => r.id) = (s.rows.map OrmQ.ident).map Prod.fst := by
    rw [List.map_map]
    rfl
  have hkept : ((s.enqueued.filter fun r => r.id ∉ s.deleted).map OrmQ.ident).map Prod.fst =
      (s.enqueued.filter fun r => r.id ∉ s.deleted).map fun r => r.id := by
    rw [List.map_map]
    rfl
  rw [hids, h.rows, hkept]
  exact h.ids.sublist (List.filter_sublist.map _)

private theorem map_filter_ids (rows : List OrmQ) (ids : List Nat) :
    (rows.filter fun r => r.id ∉ ids).map OrmQ.ident = (rows.map OrmQ.ident).filter fun x => x.1 ∉ ids := by
  rw [List.filter_map]
  rfl

theorem Ledger.effect (h : s.Ledger) (he : Effect bulk s t s') : s'.Ledger := by
  cases he with
  | enqueued key payload lock =>
    have hfresh : s.nextId ∉ s.deleted := fun hmem => Nat.lt_irrefl _ (h.gone _ hmem)
    refine ⟨?_, ?_, ?_, ?_, ?_⟩
    · rw [List.map_append, List.map_singleton, List.nodup_append]
      refine ⟨h.ids, List.nodup_singleton _, ?_⟩
      intro id hid id' hid' hsame
      obtain ⟨r, hr, rfl⟩ := List.mem_map.mp hid
      rw [List.mem_singleton] at hid'
      have hlt := h.bound r hr
      rw [hsame, hid'] at hlt
      exact Nat.lt_irrefl _ hlt
    · intro r hr
      rcases List.mem_append.mp hr with hr | hr
      · exact Nat.lt_succ_of_lt (h.bound r hr)
      · rw [List.mem_singleton.mp hr]
        exact Nat.lt_succ_self _
    · exact fun id hid => Nat.lt_succ_of_lt (h.gone id hid)
    · have hkept : ([⟨s.nextId, key, payload, lock⟩] : List OrmQ).filter (fun r => r.id ∉ s.deleted) =
          [⟨s.nextId, key, payload, lock⟩] := by simp [hfresh]
      dsimp only
      rw [List.map_append, h.rows, List.filter_append, List.map_append, hkept]
    · intro r hr
      rcases List.mem_append.mp hr with hr | hr
      · rcases h.locks r hr with hold | hlease
        · exact .inl (List.mem_append_left _ hold)
        · exact .inr hlease
      · exact .inl (List.mem_append_right _ hr)
  | deleted ids hids =>
    refine ⟨h.ids, h.bound, ?_, ?_, ?_⟩
    · intro id hid
      rcases List.mem_append.mp hid with hid | hid
      · exact h.gone id hid
      · obtain ⟨r, hr, rfl⟩ := hids id hid
        exact h.row_bound hr
    · have hboth : (s.enqueued.filter fun r => r.id ∉ s.deleted ++ ids) =
          (s.enqueued.filter fun r => r.id ∉ s.deleted).filter fun r => r.id ∉ ids := by
        rw [List.filter_filter]
        apply List.filter_congr
        intro r _
        simp [List.mem_append, not_or, and_comm]
      rw [hboth, map_filter_ids, map_filter_ids, h.rows]
    · intro r hr
      exact h.locks r (List.mem_filter.mp hr).1
  | leased hd hp hrow hid hlock =>
    refine ⟨h.ids, h.bound, h.gone, ?_, ?_⟩
    · rw [Rows.map_updateWhere]
      · exact h.rows
      · exact fun _ _ _ => rfl
    · intro r hr
      obtain ⟨q, hq, rfl⟩ := Rows.mem_updateWhere.mp hr
      split
      · rename_i hsel
        rw [Bool.and_eq_true, decide_eq_true_eq] at hsel
        exact .inr ⟨_, List.mem_append_right _ List.mem_cons_self, hsel.1.symm, rfl⟩
      · rcases h.locks q hq with hold | ⟨c, hc, hrest⟩
        · exact .inl hold
        · exact .inr ⟨c, List.mem_append_left _ hc, hrest⟩
  | called | read | queried | stamped | missed => exact ⟨h.ids, h.bound, h.gone, h.rows, h.locks⟩

section
variable (lane : Lane) (now : ClockReading) (tasks taskList : List OrmQ)

theorem carryOn_pending : (ScanPhase.carryOn lane now tasks taskList).pending = tasks := by
  by_cases ht : tasks = []
  · subst ht
    rw [ScanPhase.carryOn, if_neg (not_not.mpr rfl)]
    split
    · rfl
    · split
      · rfl
      · rfl
  · rw [ScanPhase.carryOn, if_pos ht]
    rfl

theorem carryOn_taskList : (ScanPhase.carryOn lane now tasks taskList).taskList = taskList := by
  rw [ScanPhase.carryOn]
  split
  · rfl
  · split
    · rfl
    · rename_i hl
      rw [not_not.mp hl]
      split
      · rfl
      · rfl

/-- A call stays in a lane while it has a row of it left or taken. -/
theorem carryOn_lane {r : OrmQ} (h : r ∈ tasks ++ taskList) :
    (ScanPhase.carryOn lane now tasks taskList).lane = lane := by
  rw [ScanPhase.carryOn]
  split
  · rfl
  · rename_i ht
    split
    · rfl
    · rename_i hl
      rw [not_not.mp ht, not_not.mp hl] at h
      cases h

end

/-- What a call took are its leases, all of one lane. -/
structure Accounted (s : OrmQueue) (i : Nat) (d : DequeueCall) : Prop where
  seen : ∀ r ∈ d.phase.pending ++ d.phase.taskList, r.key = d.phase.lane.key d.listKey ∧
    ∃ q ∈ s.enqueued, q.ident = r.ident
  leased : ((s.leases.filter fun c => c.call = i).map fun c => (c.row, c.key)) =
    d.phase.taskList.map fun r => (r.id, r.key)
  took : ∀ lane taskList, d.phase = .returned lane taskList → taskList ≠ []

structure Accounts (s : OrmQueue) : Prop where
  calls : ∀ i d, s.calls[i]? = some d → s.Accounted i d
  bound : ∀ c ∈ s.leases, c.call < s.calls.length

theorem Accounted.mono {i : Nat} {d : DequeueCall} (h : s.Accounted i d) (he : s.enqueued ⊆ s'.enqueued)
    (hl : s'.leases.filter (fun c => c.call = i) = s.leases.filter fun c => c.call = i) : s'.Accounted i d := by
  refine ⟨?_, by rw [hl]; exact h.leased, h.took⟩
  intro r hr
  obtain ⟨hkey, q, hq, hqr⟩ := h.seen r hr
  exact ⟨hkey, q, he hq, hqr⟩

/-- A call that goes on in its lane, with these rows left and taken. -/
private theorem Accounted.carryOn {i : Nat} {listKey : String} {lane : Lane} {now : ClockReading}
    {tasks taskList : List OrmQ}
    (hseen : ∀ r ∈ tasks ++ taskList, r.key = lane.key listKey ∧ ∃ q ∈ s.enqueued, q.ident = r.ident)
    (hleased : ((s.leases.filter fun c => c.call = i).map fun c => (c.row, c.key)) =
      taskList.map fun r => (r.id, r.key)) :
    s.Accounted i ⟨listKey, .carryOn lane now tasks taskList⟩ := by
  refine ⟨?_, ?_, ?_⟩
  · intro r hr
    rw [carryOn_pending, carryOn_taskList] at hr
    rw [carryOn_lane lane now tasks taskList hr]
    exact hseen r hr
  · rw [carryOn_taskList]
    exact hleased
  · intro lane' taskList' hreturned
    have htake := carryOn_taskList lane now tasks taskList
    dsimp only at hreturned
    rw [ScanPhase.carryOn] at hreturned
    split at hreturned
    · cases hreturned
    · split at hreturned
      · rename_i hne
        cases hreturned
        exact hne
      · split at hreturned
        · cases hreturned
        · cases hreturned

/-- A call that is written, and the others. -/
private theorem Accounts.set (h : s.Accounts) {i : Nat} {d : DequeueCall} {phase : ScanPhase}
    (hd : s.calls[i]? = some d) (hcalls : s'.calls = (s.setPhase i phase).calls) (he : s.enqueued ⊆ s'.enqueued)
    (hothers : ∀ j, j ≠ i → s'.leases.filter (fun c => c.call = j) = s.leases.filter fun c => c.call = j)
    (hbound : ∀ c ∈ s'.leases, c ∈ s.leases ∨ c.call = i)
    (hnew : s'.Accounted i { d with phase }) : s'.Accounts := by
  constructor
  · intro j d' hj
    rw [hcalls] at hj
    rcases setPhase_calls hj with ⟨rfl, d₀, hd₀, rfl⟩ | ⟨hne, hj⟩
    · rw [hd] at hd₀
      obtain rfl := Option.some.inj hd₀
      exact hnew
    · exact (h.calls j d' hj).mono he (hothers j hne)
  · intro c hc
    rw [hcalls, setPhase_length]
    rcases hbound c hc with hc | hci
    · exact h.bound c hc
    · rw [hci]
      exact (List.getElem?_eq_some_iff.mp hd).1

theorem Accounts.effect (h : s.Accounts) (hledger : s.Ledger) (he : Effect bulk s t s') : s'.Accounts := by
  cases he with
  | enqueued key payload lock =>
    exact ⟨fun i d hd => (h.calls i d hd).mono (List.subset_append_left _ _) rfl, h.bound⟩
  | deleted ids hids => exact ⟨fun i d hd => (h.calls i d hd).mono (fun _ hq => hq) rfl, h.bound⟩
  | called listKey =>
    constructor
    · intro i d hd
      rcases Nat.lt_trichotomy i s.calls.length with hlt | heq | hgt
      · rw [List.getElem?_append_left hlt] at hd
        exact (h.calls i d hd).mono (fun _ hq => hq) rfl
      · subst heq
        rw [List.getElem?_concat_length] at hd
        obtain rfl := Option.some.inj hd
        have hnone : s.leases.filter (fun c => c.call = s.calls.length) = [] := by
          rw [List.filter_eq_nil_iff]
          intro c hc hsel
          have hlt := h.bound c hc
          rw [of_decide_eq_true hsel] at hlt
          exact Nat.lt_irrefl _ hlt
        refine ⟨fun r hr => absurd hr List.not_mem_nil, ?_, fun _ _ hp => by cases hp⟩
        dsimp only
        rw [hnone]
        rfl
      · rw [List.getElem?_eq_none] at hd
        · cases hd
        · rw [List.length_append]
          exact hgt
    · intro c hc
      dsimp only
      rw [List.length_append]
      exact Nat.lt_of_lt_of_le (h.bound c hc) (Nat.le_add_right _ _)
  | @read i d lane value hd hp =>
    have hold := h.calls i d hd
    refine h.set hd rfl (fun _ hq => hq) (fun _ _ => rfl) (fun c hc => .inl hc) ?_
    refine ⟨fun r hr => absurd hr List.not_mem_nil, ?_, fun _ _ hr => by cases hr⟩
    have hleased := hold.leased
    rw [hp] at hleased
    exact hleased
  | @queried i d lane now answer hd hp hrows _ =>
    have hold := h.calls i d hd
    refine h.set hd rfl (fun _ hq => hq) (fun _ _ => rfl) (fun c hc => .inl hc) (Accounted.carryOn ?_ ?_)
    · intro r hr
      rw [List.append_nil] at hr
      obtain ⟨hmem, hkey, -⟩ := hrows r hr
      exact ⟨hkey, hledger.origin hmem⟩
    · have hleased := hold.leased
      rw [hp] at hleased
      exact hleased
  | @stamped i d lane now task tasks taskList lock period hd hp =>
    have hold := h.calls i d hd
    refine h.set hd rfl (fun _ hq => hq) (fun _ _ => rfl) (fun c hc => .inl hc) ?_
    obtain ⟨hseen, hleased, -⟩ := hold
    rw [hp] at hseen hleased
    exact ⟨hseen, hleased, fun _ _ hr => by cases hr⟩
  | @leased i d lane now task row tasks taskList stamp hd hp hrow hid hlock =>
    obtain ⟨hseen, hleased, -⟩ := h.calls i d hd
    rw [hp] at hseen hleased
    refine h.set hd rfl (fun _ hq => hq) ?_ ?_ (Accounted.carryOn ?_ ?_)
    · intro j hj
      dsimp only
      rw [List.filter_append, List.filter_cons_of_neg, List.filter_nil, List.append_nil]
      exact fun hsel => hj (of_decide_eq_true hsel).symm
    · intro c hc
      rcases List.mem_append.mp hc with hc | hc
      · exact .inl hc
      · rw [List.mem_singleton.mp hc]
        exact .inr rfl
    · intro r hr
      apply hseen r
      simp only [ScanPhase.pending, ScanPhase.taskList, List.mem_append, List.mem_cons,
        List.not_mem_nil, or_false] at hr ⊢
      rcases hr with hr | hr | hr
      · exact .inl (.inr hr)
      · exact .inr hr
      · exact .inl (.inl hr)
    · have hone : ([⟨task.id, task.key, i, stamp⟩] : List QueueLease).filter (fun c => c.call = i) =
          [⟨task.id, task.key, i, stamp⟩] := by simp
      dsimp only
      rw [List.filter_append, List.map_append, hleased, List.map_append, hone]
      rfl
  | @missed i d lane now task tasks taskList stamp hd hp _ =>
    obtain ⟨hseen, hleased, -⟩ := h.calls i d hd
    rw [hp] at hseen hleased
    refine h.set hd rfl (fun _ hq => hq) (fun _ _ => rfl) (fun c hc => .inl hc) (Accounted.carryOn ?_ hleased)
    intro r hr
    apply hseen r
    rcases List.mem_append.mp hr with hr | hr
    · exact List.mem_append_left _ (List.mem_cons_of_mem _ hr)
    · exact List.mem_append_right _ hr

end OrmQueue
end Qraft
