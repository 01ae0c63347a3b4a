import Qraft.Broker.LaneScans

/-! Leases of one row are a lock period apart, and a call leases in one lane. -/
namespace Qraft
namespace OrmQueue
variable {bulk : Nat} {s s' : OrmQueue} {t : Time}

/-- What a call that is at work in a lane holds to be true. -/
structure Current (s : OrmQueue) (phase : ScanPhase) : Prop where
  reading : ∀ now, phase.reading? = some now → now ∈ s.readings ∧
    ∀ r ∈ phase.pending, r.lock < now.value ∧ r.id < s.nextId ∧ ∀ q ∈ s.rows, q.id = r.id → r.lock ≤ q.lock
  stamp : ∀ lane now task tasks taskList stamp, phase = .updating lane now task tasks taskList stamp →
    stamp ∈ s.stamps ∧ now.time ≤ stamp.time

/-- Locks only grow, and leases of one row are a period apart. -/
structure Paced (s : OrmQueue) : Prop where
  readings : ∀ now ∈ s.readings, now.time ≤ s.time
  calls : ∀ (i : Nat) d, s.calls[i]? = some d → s.Current d.phase
  leases : ∀ c ∈ s.leases, c.stamp ∈ s.stamps ∧ c.row < s.nextId ∧ ∀ r ∈ s.rows, r.id = c.row → c.stamp.lock ≤ r.lock
  apart : s.leases.Pairwise fun c d => c.row = d.row → c.stamp.time + c.stamp.period ≤ d.stamp.time

theorem Timely.of_effect (he : Effect bulk s t s') (h : s'.Timely) : s.Timely := by
  have hsub : s.stamps ⊆ s'.stamps ∧ s.readings ⊆ s'.readings := by
    cases he with
    | read => exact ⟨fun _ h => h, List.subset_append_left _ _⟩
    | stamped => exact ⟨List.subset_append_left _ _, fun _ h => h⟩
    | enqueued | deleted | called | queried | leased | missed => exact ⟨fun _ h => h, fun _ h => h⟩
  intro stamp hstamp
  obtain ⟨hpos, hlater⟩ := h stamp (hsub.1 hstamp)
  exact ⟨hpos, fun now hnow => hlater now (hsub.2 hnow)⟩

/-- A lock time is later than the reading of the call that sets it. -/
private theorem Timely.own (h : s.Timely) {stamp : LockStamp} {now : ClockReading} (hs : stamp ∈ s.stamps)
    (hn : now ∈ s.readings) (htime : now.time ≤ stamp.time) : now.value < stamp.lock := by
  obtain ⟨hpos, hlater⟩ := h stamp hs
  rcases hlater now hn with hle | hlt
  · exact absurd (Nat.le_trans hle htime) (Nat.not_le.mpr (Nat.lt_add_of_pos_right hpos))
  · exact hlt

theorem Current.mono {phase : ScanPhase} (h : s.Current phase) (hr : s.readings ⊆ s'.readings)
    (hs : s.stamps ⊆ s'.stamps) (hn : s.nextId ≤ s'.nextId)
    (hrows : ∀ q ∈ s'.rows, (∃ p ∈ s.rows, p.id = q.id ∧ p.lock ≤ q.lock) ∨ s.nextId ≤ q.id) : s'.Current phase := by
  refine ⟨?_, ?_⟩
  · intro now hnow
    obtain ⟨hmem, hpending⟩ := h.reading now hnow
    refine ⟨hr hmem, ?_⟩
    intro r hrp
    obtain ⟨hlt, hbound, hlock⟩ := hpending r hrp
    refine ⟨hlt, Nat.lt_of_lt_of_le hbound hn, ?_⟩
    intro q hq hid
    rcases hrows q hq with ⟨p, hp, hpid, hple⟩ | hnew
    · exact Nat.le_trans (hlock p hp (hpid.trans hid)) hple
    · rw [hid] at hnew
      exact absurd hbound (Nat.not_lt.mpr hnew)
  · intro lane now task tasks taskList stamp hp
    obtain ⟨hmem, hle⟩ := h.stamp lane now task tasks taskList stamp hp
    exact ⟨hs hmem, hle⟩

/-- The loop goes on with rows that hold what is needed of them. -/
private theorem Current.carryOn {lane : Lane} {now : ClockReading} {tasks taskList : List OrmQ}
    (hnow : now ∈ s.readings) (h : ∀ r ∈ tasks, r.lock < now.value ∧ r.id < s.nextId ∧
      ∀ q ∈ s.rows, q.id = r.id → r.lock ≤ q.lock) : s.Current (.carryOn lane now tasks taskList) := by
  refine ⟨?_, ?_⟩
  · intro now' hnow'
    rw [carryOn_pending]
    rw [ScanPhase.carryOn] at hnow'
    split at hnow'
    · obtain rfl := Option.some.inj hnow'
      exact ⟨hnow, h⟩
    · split at hnow'
      · cases hnow'
      · split at hnow'
        · cases hnow'
        · cases hnow'
  · intro lane' now' task tasks' taskList' stamp hp
    rw [ScanPhase.carryOn] at hp
    split at hp
    · cases hp
    · split at hp
      · cases hp
      · split at hp
        · cases hp
        · cases hp

/-- A step that writes one call, and no lease. -/
private theorem Paced.set (h : s.Paced) (htime : s.time ≤ s'.time) {i : Nat} {phase : ScanPhase}
    (hcalls : s'.calls = (s.setPhase i phase).calls) (hread : s.readings ⊆ s'.readings)
    (hstamp : s.stamps ⊆ s'.stamps) (hnew : ∀ now ∈ s'.readings, now ∈ s.readings ∨ now.time ≤ s'.time)
    (hrows : s'.rows = s.rows) (hleases : s'.leases = s.leases) (hnext : s'.nextId = s.nextId)
    (hphase : s'.Current phase) : s'.Paced := by
  refine ⟨?_, ?_, ?_, ?_⟩
  · intro now hnow
    rcases hnew now hnow with hold | hle
    · exact Nat.le_trans (h.readings now hold) htime
    · exact hle
  · intro j d hd
    rw [hcalls] at hd
    rcases setPhase_calls hd with ⟨-, d₀, -, rfl⟩ | ⟨-, hd⟩
    · exact hphase
    · refine (h.calls j d hd).mono hread hstamp (Nat.le_of_eq hnext.symm) ?_
      intro q hq
      rw [hrows] at hq
      exact .inl ⟨q, hq, rfl, Nat.le_refl _⟩
  · intro c hc
    rw [hleases] at hc
    obtain ⟨hmem, hbound, hlock⟩ := h.leases c hc
    rw [hrows, hnext]
    exact ⟨hstamp hmem, hbound, hlock⟩
  · rw [hleases]
    exact h.apart

/-- Rows come and go; none has its lock set back. -/
private theorem Paced.table (h : s.Paced) (htime : s.time ≤ s'.time) (hcalls : s'.calls = s.calls)
    (hread : s'.readings = s.readings) (hstamp : s'.stamps = s.stamps) (hleases : s'.leases = s.leases)
    (hnext : s.nextId ≤ s'.nextId) (hrows : ∀ q ∈ s'.rows, q ∈ s.rows ∨ s.nextId ≤ q.id) : s'.Paced := by
  refine ⟨?_, ?_, ?_, ?_⟩
  · intro now hnow
    rw [hread] at hnow
    exact Nat.le_trans (h.readings now hnow) htime
  · intro i d hd
    rw [hcalls] at hd
    refine (h.calls i d hd).mono (by rw [hread]; exact List.Subset.refl _)
      (by rw [hstamp]; exact List.Subset.refl _) hnext ?_
    intro q hq
    rcases hrows q hq with hq | hnew
    · exact .inl ⟨q, hq, rfl, Nat.le_refl _⟩
    · exact .inr hnew
  · intro c hc
    rw [hleases] at hc
    obtain ⟨hmem, hbound, hlock⟩ := h.leases c hc
    refine ⟨hstamp ▸ hmem, Nat.lt_of_lt_of_le hbound hnext, ?_⟩
    intro q hq hid
    rcases hrows q hq with hq | hnew
    · exact hlock q hq hid
    · rw [hid] at hnew
      exact absurd hbound (Nat.not_lt.mpr hnew)
  · rw [hleases]
    exact h.apart

theorem Paced.effect (h : s.Paced) (hledger : s.Ledger) (htime : s.time ≤ t) (he : Effect bulk s t s')
    (htimely : s.Timely) : s'.Paced := by
  cases he with
  | enqueued key payload lock =>
    refine h.table htime rfl rfl rfl rfl (Nat.le_succ _) ?_
    intro q hq
    rcases List.mem_append.mp hq with hq | hq
    · exact .inl hq
    · rw [List.mem_singleton.mp hq]
      exact .inr (Nat.le_refl _)
  | deleted ids hids =>
    exact h.table htime rfl rfl rfl rfl (Nat.le_refl _) fun q hq => .inl (List.mem_filter.mp hq).1
  | called listKey =>
    refine ⟨fun now hnow => Nat.le_trans (h.readings now hnow) htime, ?_, h.leases, h.apart⟩
    intro i d hd
    rcases Nat.lt_or_ge i s.calls.length with hlt | hge
    · rw [List.getElem?_append_left hlt] at hd
      exact (h.calls i d hd).mono (fun _ hm => hm) (fun _ hm => hm) (Nat.le_refl _)
        fun q hq => .inl ⟨q, hq, rfl, Nat.le_refl _⟩
    · rw [List.getElem?_append_right hge] at hd
      have hmem := List.mem_of_getElem? hd
      rw [List.mem_singleton.mp hmem]
      exact ⟨nofun, nofun⟩
  | @read i d lane value hd hp =>
    refine h.set htime rfl (List.subset_append_left _ _) (fun _ hm => hm) ?_ rfl rfl rfl ?_
    · intro now hnow
      rcases List.mem_append.mp hnow with hold | hnew
      · exact .inl hold
      · rw [List.mem_singleton.mp hnew]
        exact .inr (Nat.le_refl _)
    · refine ⟨?_, nofun⟩
      rintro _ ⟨rfl⟩
      exact ⟨List.mem_append_right _ List.mem_cons_self, nofun⟩
  | @queried i d lane now answer hd hp hrows _ =>
    refine h.set htime rfl (fun _ hm => hm) (fun _ hm => hm) (fun _ hm => .inl hm) rfl rfl rfl (.carryOn ?_ ?_)
    · exact ((h.calls i d hd).reading now (by rw [hp]; rfl)).1
    · intro r hr
      obtain ⟨hmem, -, hlt⟩ := hrows r hr
      refine ⟨hlt, hledger.row_bound hmem, ?_⟩
      intro q hq hid
      rw [Rows.eq_of_key_eq hledger.rows_nodup hq hmem hid]
  | @stamped i d lane now task tasks taskList lock period hd hp =>
    obtain ⟨hmem, hpending⟩ := (h.calls i d hd).reading now (by rw [hp]; rfl)
    rw [hp] at hpending
    refine h.set htime rfl (fun _ hm => hm) (List.subset_append_left _ _) (fun _ hm => .inl hm) rfl rfl rfl ?_
    refine ⟨?_, ?_⟩
    · rintro _ ⟨rfl⟩
      exact ⟨hmem, hpending⟩
    · rintro _ _ _ _ _ _ ⟨rfl⟩
      exact ⟨List.mem_append_right _ List.mem_cons_self, Nat.le_trans (h.readings now hmem) htime⟩
  | @leased i d lane now task row tasks taskList stamp hd hp hrow hid hlock =>
    have hcall := h.calls i d hd
    obtain ⟨hmem, hpending⟩ := hcall.reading now (by rw [hp]; rfl)
    obtain ⟨hstamp, hafter⟩ := hcall.stamp lane now task tasks taskList stamp hp
    rw [hp] at hpending
    obtain ⟨hdue, hbound, -⟩ := hpending task List.mem_cons_self
    have hgrows : task.lock ≤ stamp.lock := Nat.le_of_lt (Nat.lt_trans hdue (htimely.own hstamp hmem hafter))
    have hrows : ∀ q ∈ Rows.updateWhere (fun r => r.id = task.id && r.lock = task.lock)
        (fun r => { r with lock := stamp.lock }) s.rows, ∃ p ∈ s.rows, p.id = q.id ∧ p.lock ≤ q.lock := by
      intro q hq
      obtain ⟨p, hp, rfl⟩ := Rows.mem_updateWhere.mp hq
      refine ⟨p, hp, ?_⟩
      split
      · rename_i hsel
        rw [Bool.and_eq_true, decide_eq_true_eq, decide_eq_true_eq] at hsel
        refine ⟨rfl, ?_⟩
        rw [hsel.2]
        exact hgrows
      · exact ⟨rfl, Nat.le_refl _⟩
    refine ⟨fun now hnow => Nat.le_trans (h.readings now hnow) htime, ?_, ?_, ?_⟩
    · intro j d' hj
      rcases setPhase_calls hj with ⟨-, d₀, -, rfl⟩ | ⟨-, hj⟩
      · refine .carryOn hmem ?_
        intro r hr
        obtain ⟨hlt, hbound, hle⟩ := hpending r (List.mem_cons_of_mem _ hr)
        refine ⟨hlt, hbound, ?_⟩
        intro q hq hid
        obtain ⟨p, hp, hpid, hple⟩ := hrows q hq
        exact Nat.le_trans (hle p hp (hpid.trans hid)) hple
      · exact (h.calls j d' hj).mono (fun _ hm => hm) (fun _ hm => hm) (Nat.le_refl _)
          fun q hq => .inl (hrows q hq)
    · intro c hc
      rcases List.mem_append.mp hc with hc | hc
      · obtain ⟨hcs, hcb, hle⟩ := h.leases c hc
        refine ⟨hcs, hcb, ?_⟩
        intro q hq hqid
        obtain ⟨p, hp, hpid, hple⟩ := hrows q hq
        exact Nat.le_trans (hle p hp (hpid.trans hqid)) hple
      · rw [List.mem_singleton.mp hc]
        refine ⟨hstamp, hbound, ?_⟩
        intro q hq hqid
        obtain ⟨p, hp, rfl⟩ := Rows.mem_updateWhere.mp hq
        split
        · exact Nat.le_refl _
        · rename_i hsel
          have hpid : p.id = task.id := by
            rw [if_neg hsel] at hqid
            exact hqid
          obtain rfl := Rows.eq_of_key_eq hledger.rows_nodup hp hrow (hpid.trans hid.symm)
          exact absurd (Bool.and_eq_true_iff.mpr ⟨decide_eq_true hid, decide_eq_true hlock⟩) hsel
    · rw [List.pairwise_append]
      refine ⟨h.apart, List.pairwise_singleton _ _, ?_⟩
      intro c hc c' hc' hsame
      rw [List.mem_singleton.mp hc'] at hsame ⊢
      -- The row was due when it was read, so the lock of every earlier lease had passed by then.
      obtain ⟨hcs, -, hle⟩ := h.leases c hc
      have hpassed : c.stamp.lock < now.value :=
        Nat.lt_of_le_of_lt (Nat.le_trans (hle row hrow (hid.trans hsame.symm)) (Nat.le_of_eq hlock)) hdue
      rcases (htimely c.stamp hcs).2 now hmem with hlater | hwithin
      · exact Nat.le_trans hlater hafter
      · exact absurd hwithin (Nat.lt_asymm hpassed)
  | @missed i d lane now task tasks taskList stamp hd hp _ =>
    obtain ⟨hmem, hpending⟩ := (h.calls i d hd).reading now (by rw [hp]; rfl)
    rw [hp] at hpending
    exact h.set htime rfl (fun _ hm => hm) (fun _ hm => hm) (fun _ hm => .inl hm) rfl rfl rfl
      (.carryOn hmem fun r hr => hpending r (List.mem_cons_of_mem _ hr))

/-- In every run, rows, leases and calls are in order. -/
theorem reach_sound (h : (ormQueueSystem bulk).Reach s) : s.Ledger ∧ s.Accounts ∧ (s.Timely → s.Paced) := by
  apply h.invariant fun s => s.Ledger ∧ s.Accounts ∧ (s.Timely → s.Paced)
  · rintro s rfl
    refine ⟨⟨List.nodup_nil, nofun, nofun, rfl, nofun⟩, ⟨?_, nofun⟩, fun _ => ⟨nofun, ?_, nofun, .nil⟩⟩
    · intro i d hd
      cases hd
    · intro i d hd
      cases hd
  · rintro s ⟨e, t⟩ s' ⟨hledger, haccounts, hpaced⟩ - hstep
    obtain ⟨htime, he⟩ := step_effect hstep
    refine ⟨hledger.effect he, haccounts.effect hledger he, ?_⟩
    intro htimely
    have hbefore := htimely.of_effect he
    exact (hpaced hbefore).effect hledger htime he hbefore

private theorem higher_key {lane higher : Lane} (h : higher ∈ lane.higher) (listKey : String) :
    lane.key listKey ≠ higher.key listKey := by
  intro hsame
  have hlength := congrArg String.length hsame
  cases lane with
  | high => cases h
  | base =>
    obtain rfl := List.mem_singleton.mp h
    simp [Lane.key, String.length_append] at hlength
  | low =>
    rcases List.mem_cons.mp h with rfl | h
    · simp only [Lane.key, String.length_append] at hlength
      have hshort : "--low".length < "--high".length := by decide
      omega
    · obtain rfl := List.mem_singleton.mp h
      simp [Lane.key, String.length_append] at hlength

/-- Over every interleaving: two leases of one row are a lock period apart; what a call returned is
what it leased, all of one lane, after it had read each higher lane and could claim none of the rows
that were due there, each being gone or locked anew by its update; a call that returns nothing has done
so with all three; and the table holds what was enqueued and not deleted, with no lock changed but by a
lease. -/
theorem priority_dequeue (h : (ormQueueSystem bulk).Reach s) (htimely : s.Timely) :
    (s.leases.Pairwise fun c d => c.row = d.row → c.stamp.time + c.stamp.period ≤ d.stamp.time) ∧
    (∀ i d, s.calls[i]? = some d →
      ((s.leases.filter fun c => c.call = i).map fun c => (c.row, c.key)) =
        d.phase.taskList.map (fun r => (r.id, r.key)) ∧
      (∀ r ∈ d.phase.taskList, ∃ q ∈ s.enqueued, q.ident = r.ident) ∧
      (∀ lane taskList, d.phase = .returned lane taskList → taskList ≠ [] ∧
        (∀ c ∈ s.leases, c.call = i → c.key = lane.key d.listKey ∧
          ∀ higher ∈ lane.higher, c.key ≠ higher.key d.listKey) ∧
        ∀ higher ∈ lane.higher, s.Barren bulk i d.listKey higher) ∧
      (d.phase = .slept → ∀ lane, s.Barren bulk i d.listKey lane)) ∧
    s.rows.map OrmQ.ident = (s.enqueued.filter fun r => r.id ∉ s.deleted).map OrmQ.ident ∧
    ∀ r ∈ s.rows, r ∈ s.enqueued ∨ ∃ c ∈ s.leases, c.row = r.id ∧ c.stamp.lock = r.lock := by
  obtain ⟨hledger, haccounts, hpaced⟩ := reach_sound h
  refine ⟨(hpaced htimely).apart, ?_, hledger.rows, hledger.locks⟩
  intro i d hd
  obtain ⟨hseen, hleased, htook⟩ := haccounts.calls i d hd
  have hpassed := (reach_scanned h i d hd).passed
  refine ⟨hleased, fun r hr => (hseen r (List.mem_append_right _ hr)).2, ?_, ?_⟩
  · intro lane taskList hp
    rw [hp] at hpassed
    refine ⟨htook lane taskList hp, ?_, hpassed⟩
    intro c hc hi
    have hmem : (c.row, c.key) ∈ d.phase.taskList.map fun r => (r.id, r.key) := by
      rw [← hleased]
      exact List.mem_map.mpr ⟨c, List.mem_filter.mpr ⟨hc, decide_eq_true hi⟩, rfl⟩
    obtain ⟨r, hr, he⟩ := List.mem_map.mp hmem
    have hkey := (hseen r (List.mem_append_right _ hr)).1
    have hrc : r.key = c.key := congrArg Prod.snd he
    rw [hrc, hp] at hkey
    refine ⟨hkey, ?_⟩
    intro higher hhigher
    rw [hkey]
    exact higher_key hhigher d.listKey
  · intro hp lane
    rw [hp] at hpassed
    apply hpassed
    cases lane <;> decide

instance (s : OrmQueue) : Decidable s.Timely :=
  inferInstanceAs (Decidable (∀ stamp ∈ s.stamps, 0 < stamp.period ∧
    ∀ now ∈ s.readings, stamp.time + stamp.period ≤ now.time ∨ now.value < stamp.lock))

/-- Two workers read one row of the high lane. The second finds its lock changed, polls the base lane and
takes the row there. -/
private def racedDequeues : List (QueueEvent × Time) :=
  let high : OrmQ := { id := 0, key := "default--high", payload := "urgent", lock := 0 }
  let base : OrmQ := { id := 1, key := "default", payload := "task", lock := 0 }
  [(.enqueue high.key high.payload high.lock, 1), (.enqueue base.key base.payload base.lock, 1),
    (.dequeue "default", 1), (.dequeue "default", 1),
    (.readClock 0 5, 5), (.readClock 1 5, 5), (.query 0 [high], 6), (.query 1 [high], 6),
    (.timeout 0 65 60, 7), (.timeout 1 65 60, 7), (.update 0, 8), (.update 1, 8),
    (.readClock 1 9, 9), (.query 1 [base], 9), (.timeout 1 69 60, 9), (.update 1, 10)]

theorem priority_dequeue_raced : ∃ s, (ormQueueSystem 1).Reach s ∧ s.leases.length = 2 ∧
    (∃ d taskList, s.calls[1]? = some d ∧ d.phase = .returned .base taskList ∧ taskList ≠ [] ∧
      s.Barren 1 1 d.listKey .high) ∧
    s.rows.map OrmQ.ident = (s.enqueued.filter fun r => r.id ∉ s.deleted).map OrmQ.ident := by
  obtain ⟨s, hr, hp⟩ := StepSystem.exists_reach_of_run (ormQueueSystem 1) racedDequeues (.init rfl)
    (fun s => s.Timely && s.leases.length = 2 && (s.calls[1]?.map fun d => d.phase) =
      some (.returned .base [{ id := 1, key := "default", payload := "task", lock := 0 }])) (by decide)
  simp only [Bool.and_eq_true, decide_eq_true_eq] at hp
  obtain ⟨d, hd, hphase⟩ := Option.map_eq_some_iff.mp hp.2
  obtain ⟨-, hcalls, hrows, -⟩ := priority_dequeue hr hp.1.1
  obtain ⟨hne, -, hbarren⟩ := (hcalls 1 d hd).2.2.1 _ _ hphase
  exact ⟨s, hr, hp.1.2, ⟨d, _, hd, hphase, hne, hbarren .high List.mem_cons_self⟩, hrows⟩

end OrmQueue
end Qraft
