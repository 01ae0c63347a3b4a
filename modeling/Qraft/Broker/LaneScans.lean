import Qraft.Broker.LaneAccounts

/-! A call leaves a lane behind only when it could claim nothing there. -/
namespace Qraft

/-- The lanes a call is done with. -/
def ScanPhase.passed : ScanPhase → List Lane
  | slept => [.high, .base, .low]
  | phase => phase.lane.higher

/-- The query of the phase's lane was answered. -/
def ScanPhase.scanned : ScanPhase → Bool
  | locking .. | updating .. | returned .. => true
  | polling .. | filtering .. | slept => false

namespace OrmQueue
variable {bulk : Nat} {s s' : OrmQueue} {t : Time}

/-- The update of a row hit nothing: it had gone, or somebody else had locked it. -/
def Lost (s : OrmQueue) (i : Nat) (r : OrmQ) : Prop :=
  ∃ l ∈ s.lost, l.call = i ∧ l.task = r ∧ ∀ q ∈ l.table, q.id = r.id → q.lock ≠ r.lock

/-- A call read a lane, and of the rows it read these are left. -/
def Tried (bulk : Nat) (s : OrmQueue) (i : Nat) (listKey : String) (lane : Lane) (left : List OrmQ) : Prop :=
  ∃ scan ∈ s.scans, scan.call = i ∧ scan.lane = lane ∧
    answers bulk scan.table (lane.key listKey) scan.now.value scan.answer = true ∧
    ∀ r ∈ scan.answer, r ∈ left ∨ s.Lost i r

/-- A call read a lane and could claim none of the rows that were due there. -/
def Barren (bulk : Nat) (s : OrmQueue) (i : Nat) (listKey : String) (lane : Lane) : Prop :=
  ∃ scan ∈ s.scans, scan.call = i ∧ scan.lane = lane ∧
    answers bulk scan.table (lane.key listKey) scan.now.value scan.answer = true ∧
    ∀ r ∈ scan.answer, s.Lost i r

/-- Where a call is, it has tried all that came before. -/
structure Scanned (bulk : Nat) (s : OrmQueue) (i : Nat) (d : DequeueCall) : Prop where
  passed : ∀ lane ∈ d.phase.passed, s.Barren bulk i d.listKey lane
  tried : d.phase.scanned = true →
    s.Tried bulk i d.listKey d.phase.lane (d.phase.pending ++ d.phase.taskList)

theorem Lost.mono {i : Nat} {r : OrmQ} (h : s.Lost i r) (hl : s.lost ⊆ s'.lost) : s'.Lost i r := by
  obtain ⟨l, hmem, hrest⟩ := h
  exact ⟨l, hl hmem, hrest⟩

theorem Tried.mono {i : Nat} {listKey : String} {lane : Lane} {left left' : List OrmQ}
    (h : s.Tried bulk i listKey lane left) (hs : s.scans ⊆ s'.scans) (hl : s.lost ⊆ s'.lost)
    (hleft : ∀ r ∈ left, r ∈ left' ∨ s'.Lost i r) : s'.Tried bulk i listKey lane left' := by
  obtain ⟨scan, hmem, hcall, hlane, hans, hrows⟩ := h
  refine ⟨scan, hs hmem, hcall, hlane, hans, ?_⟩
  intro r hr
  rcases hrows r hr with hr | hlost
  · exact hleft r hr
  · exact .inr (hlost.mono hl)

theorem Barren.mono {i : Nat} {listKey : String} {lane : Lane} (h : s.Barren bulk i listKey lane)
    (hs : s.scans ⊆ s'.scans) (hl : s.lost ⊆ s'.lost) : s'.Barren bulk i listKey lane := by
  obtain ⟨scan, hmem, hcall, hlane, hans, hrows⟩ := h
  exact ⟨scan, hs hmem, hcall, hlane, hans, fun r hr => (hrows r hr).mono hl⟩

theorem Tried.barren {i : Nat} {listKey : String} {lane : Lane} (h : s.Tried bulk i listKey lane []) :
    s.Barren bulk i listKey lane := by
  obtain ⟨scan, hmem, hcall, hlane, hans, hrows⟩ := h
  exact ⟨scan, hmem, hcall, hlane, hans, fun r hr => (hrows r hr).resolve_left List.not_mem_nil⟩

theorem Scanned.mono {i : Nat} {d : DequeueCall} (h : s.Scanned bulk i d) (hs : s.scans ⊆ s'.scans)
    (hl : s.lost ⊆ s'.lost) : s'.Scanned bulk i d :=
  ⟨fun lane hlane => (h.passed lane hlane).mono hs hl,
    fun hp => (h.tried hp).mono hs hl fun _ hr => .inl hr⟩

/-- A call that goes on in its lane, or leaves it with nothing. -/
private theorem Scanned.carryOn {i : Nat} {listKey : String} {lane : Lane} {now : ClockReading}
    {tasks taskList : List OrmQ} (hpassed : ∀ higher ∈ lane.higher, s.Barren bulk i listKey higher)
    (htried : s.Tried bulk i listKey lane (tasks ++ taskList)) :
    s.Scanned bulk i ⟨listKey, .carryOn lane now tasks taskList⟩ := by
  by_cases htasks : tasks = []
  · by_cases htake : taskList = []
    · subst htasks htake
      have hbarren := htried.barren
      cases lane with
      | high =>
        refine ⟨?_, fun h => by cases h⟩
        intro higher hh
        rw [List.mem_singleton.mp hh]
        exact hbarren
      | base =>
        refine ⟨?_, fun h => by cases h⟩
        intro higher hh
        rcases List.mem_cons.mp hh with rfl | hh
        · exact hpassed _ List.mem_cons_self
        · rw [List.mem_singleton.mp hh]
          exact hbarren
      | low =>
        refine ⟨?_, fun h => by cases h⟩
        intro higher hh
        rcases List.mem_cons.mp hh with rfl | hh
        · exact hpassed _ List.mem_cons_self
        · rcases List.mem_cons.mp hh with rfl | hh
          · exact hpassed _ (List.mem_cons_of_mem _ List.mem_cons_self)
          · rw [List.mem_singleton.mp hh]
            exact hbarren
    · have hphase : ScanPhase.carryOn lane now tasks taskList = .returned lane taskList := by
        rw [ScanPhase.carryOn, if_neg (not_not.mpr htasks), if_pos htake]
      rw [hphase]
      rw [htasks] at htried
      exact ⟨hpassed, fun _ => htried⟩
  · have hphase : ScanPhase.carryOn lane now tasks taskList = .locking lane now tasks taskList := by
      rw [ScanPhase.carryOn, if_pos htasks]
    rw [hphase]
    exact ⟨hpassed, fun _ => htried⟩

/-- A call that is written, and the others. -/
private theorem scanned_set {i : Nat} {phase : ScanPhase}
    (h : ∀ j d, s.calls[j]? = some d → s.Scanned bulk j d)
    (hcalls : s'.calls = (s.setPhase i phase).calls) (hs : s.scans ⊆ s'.scans) (hl : s.lost ⊆ s'.lost)
    (hnew : ∀ d, s.calls[i]? = some d → s'.Scanned bulk i { d with phase }) :
    ∀ j d, s'.calls[j]? = some d → s'.Scanned bulk j d := by
  intro j d' hj
  rw [hcalls] at hj
  rcases setPhase_calls hj with ⟨rfl, d, hd, rfl⟩ | ⟨-, hj⟩
  · exact hnew d hd
  · exact (h j d' hj).mono hs hl

theorem scanned_effect (h : ∀ i d, s.calls[i]? = some d → s.Scanned bulk i d) (he : Effect bulk s t s') :
    ∀ i d, s'.calls[i]? = some d → s'.Scanned bulk i d := by
  cases he with
  | enqueued | deleted => exact fun i d hd => (h i d hd).mono (fun _ hm => hm) fun _ hm => hm
  | called listKey =>
    intro i d hd
    rcases Nat.lt_or_ge i s.calls.length with hlt | hge
    · rw [List.getElem?_append_left hlt] at hd
      exact (h i d hd).mono (fun _ hm => hm) fun _ hm => hm
    · rw [List.getElem?_append_right hge] at hd
      rw [List.mem_singleton.mp (List.mem_of_getElem? hd)]
      exact ⟨fun _ hh => absurd hh List.not_mem_nil, fun hp => by cases hp⟩
  | @read i d lane value hd hp =>
    refine scanned_set h rfl (fun _ hm => hm) (fun _ hm => hm) ?_
    intro d' hd'
    obtain rfl := Option.some.inj (hd.symm.trans hd')
    have hpassed := (h i d hd).passed
    rw [hp] at hpassed
    exact ⟨fun higher hh => (hpassed higher hh).mono (fun _ hm => hm) fun _ hm => hm, fun hp => by cases hp⟩
  | @queried i d lane now answer hd hp _ hans =>
    refine scanned_set h rfl (List.subset_append_left _ _) (fun _ hm => hm) ?_
    intro d' hd'
    obtain rfl := Option.some.inj (hd.symm.trans hd')
    have hpassed := (h i d hd).passed
    rw [hp] at hpassed
    refine .carryOn (fun higher hh => (hpassed higher hh).mono (List.subset_append_left _ _) fun _ hm => hm) ?_
    refine ⟨_, List.mem_append_right _ List.mem_cons_self, rfl, rfl, hans, ?_⟩
    exact fun r hr => .inl (List.mem_append_left _ hr)
  | @stamped i d lane now task tasks taskList lock period hd hp =>
    refine scanned_set h rfl (fun _ hm => hm) (fun _ hm => hm) ?_
    intro d' hd'
    obtain rfl := Option.some.inj (hd.symm.trans hd')
    obtain ⟨hpassed, htried⟩ := h i d hd
    rw [hp] at hpassed htried
    exact ⟨fun higher hh => (hpassed higher hh).mono (fun _ hm => hm) fun _ hm => hm,
      fun _ => (htried rfl).mono (fun _ hm => hm) (fun _ hm => hm) fun _ hr => .inl hr⟩
  | @leased i d lane now task row tasks taskList stamp hd hp hrow hid hlock =>
    refine scanned_set h rfl (fun _ hm => hm) (fun _ hm => hm) ?_
    intro d' hd'
    obtain rfl := Option.some.inj (hd.symm.trans hd')
    obtain ⟨hpassed, htried⟩ := h i d hd
    rw [hp] at hpassed htried
    refine .carryOn (fun higher hh => (hpassed higher hh).mono (fun _ hm => hm) fun _ hm => hm) ?_
    refine (htried rfl).mono (fun _ hm => hm) (fun _ hm => hm) ?_
    intro r hr
    simp only [ScanPhase.pending, ScanPhase.taskList, List.mem_append, List.mem_cons, List.not_mem_nil,
      or_false] at hr ⊢
    rcases hr with (rfl | hr) | hr
    · exact .inl (.inr (.inr rfl))
    · exact .inl (.inl hr)
    · exact .inl (.inr (.inl hr))
  | @missed i d lane now task tasks taskList stamp hd hp hlost =>
    refine scanned_set h rfl (fun _ hm => hm) (List.subset_append_left _ _) ?_
    intro d' hd'
    obtain rfl := Option.some.inj (hd.symm.trans hd')
    obtain ⟨hpassed, htried⟩ := h i d hd
    rw [hp] at hpassed htried
    refine .carryOn (fun higher hh => (hpassed higher hh).mono (fun _ hm => hm) (List.subset_append_left _ _)) ?_
    refine (htried rfl).mono (fun _ hm => hm) (List.subset_append_left _ _) ?_
    intro r hr
    rcases List.mem_append.mp hr with hr | hr
    · rcases List.mem_cons.mp hr with rfl | hr
      · exact .inr ⟨_, List.mem_append_right _ List.mem_cons_self, rfl, rfl, hlost⟩
      · exact .inl (List.mem_append_left _ hr)
    · exact .inl (List.mem_append_right _ hr)

theorem reach_scanned (h : (ormQueueSystem bulk).Reach s) :
    ∀ i d, s.calls[i]? = some d → s.Scanned bulk i d := by
  apply h.invariant fun s => ∀ i d, s.calls[i]? = some d → s.Scanned bulk i d
  · rintro s rfl i d hd
    cases hd
  · rintro s ⟨e, t⟩ s' hs - hstep
    exact scanned_effect hs (step_effect hstep).2

end OrmQueue
end Qraft
