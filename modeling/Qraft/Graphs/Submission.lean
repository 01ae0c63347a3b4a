import Qraft.Foundations.StepSystem
import Qraft.Graphs.Settlement

/-! `Graph.start` under a request key: calls that look for an earlier graph, and the inserts that
the unique constraint of the key refuses. -/
namespace Qraft

/-- A graph's rows, with the columns of the request they were started for. -/
structure Submission where
  state : GraphState
  requestKey : Option String
  planHash : String

inductive StartPhase where
  | called
  /-- No graph was found under its key. -/
  | inserting
  | returned (id : GraphId)
  | raised (e : QraftError)

structure StartCall where
  plan : GraphPlan
  requestKey : Option String
  phase : StartPhase := .called

structure Submissions where
  graphs : List Submission := []
  calls : List StartCall := []

inductive SubmissionEvent where
  | start (plan : GraphPlan) (requestKey : Option String)
  /-- The call validates its plan and looks its key up. -/
  | check (i : Nat)
  /-- Its transaction. -/
  | insert (i : Nat)

def StartCall.row (c : StartCall) (planHash : List NodeSpec → String) (state : GraphState) : Submission :=
  ⟨state, c.requestKey, planHash c.plan.nodes⟩

namespace Submissions

def setPhase (s : Submissions) (i : Nat) (phase : StartPhase) : Submissions :=
  { s with calls := s.calls.modify i fun c => { c with phase } }

def keyUsed (key : String) : QraftError :=
  .graphError s!"request_key {pyRepr key} already used with a different plan"

/-- The refusals of a plan, and the lookup of an earlier graph. -/
def check (planHash : List NodeSpec → String) (s : Submissions) (c : StartCall) : StartPhase :=
  match c.plan.check with
  | .error e => .raised e
  | .ok () =>
    match c.requestKey with
    | none | some "" => .inserting
    | some key =>
      match s.graphs.find? fun g => g.requestKey = some key with
      | none => .inserting
      | some existing =>
        if existing.planHash ≠ planHash c.plan.nodes then .raised (keyUsed key)
        else .returned existing.state.graph.id

/-- The transaction of `start`, where the database refuses a key that a graph has. -/
def insert (conf : RetryDefaults) (planHash : List NodeSpec → String) (s : Submissions) (i : Nat)
    (c : StartCall) (now : Time) : Submissions :=
  if c.requestKey.isSome ∧ s.graphs.any fun g => g.requestKey = c.requestKey then
    s.setPhase i (.raised (.integrityError "request_key"))
  else
    match GraphState.start conf c.plan s.graphs.length now with
    | .error e => s.setPhase i (.raised e)
    | .ok state =>
      { s with graphs := s.graphs ++ [c.row planHash state] }.setPhase i (.returned s.graphs.length)

def step (conf : RetryDefaults) (planHash : List NodeSpec → String) (s : Submissions) (now : Time) :
    SubmissionEvent → Option Submissions
  | .start plan requestKey => some { s with calls := s.calls ++ [{ plan, requestKey }] }
  | .check i =>
    s.calls[i]?.bind fun c =>
      match c.phase with
      | .called => some (s.setPhase i (s.check planHash c))
      | _ => none
  | .insert i =>
    s.calls[i]?.bind fun c =>
      match c.phase with
      | .inserting => some (s.insert conf planHash i c now)
      | _ => none

def keyFree (s : Submissions) (c : StartCall) : Bool :=
  c.requestKey.isNone || s.graphs.all fun g => g.requestKey ≠ c.requestKey

/-- Inserts that find the key of their call as free as its lookup did. -/
def Uncontended (s : Submissions) (e : SubmissionEvent × Time) : Prop :=
  match e.1 with
  | .insert i => ∀ c ∈ s.calls[i]?, s.keyFree c = true
  | _ => True

instance (s : Submissions) (e : SubmissionEvent × Time) : Decidable (Uncontended s e) := by
  unfold Uncontended
  split
  · infer_instance
  · infer_instance

end Submissions

/-- No graph and no call at first. `planHash` is the digest of a plan's nodes. -/
def submissionSystem (conf : RetryDefaults) (planHash : List NodeSpec → String) :
    StepSystem Submissions (SubmissionEvent × Time) where
  init s := s = {}
  step s e := s.step conf planHash e.2 e.1

namespace Submissions
variable {conf : RetryDefaults} {planHash : List NodeSpec → String} {s s' : Submissions} {now : Time}

def phaseOf (s : Submissions) (i : Nat) : Option StartPhase := s.calls[i]?.map fun c => c.phase

theorem mem_setPhase {i : Nat} {phase : StartPhase} {c' : StartCall}
    (h : c' ∈ (s.setPhase i phase).calls) :
    c' ∈ s.calls ∨ ∃ c, s.calls[i]? = some c ∧ c' = { c with phase } := by
  obtain ⟨j, hj⟩ := List.mem_iff_getElem?.mp h
  rw [setPhase, List.getElem?_modify] at hj
  obtain ⟨c, hc, rfl⟩ := Option.map_eq_some_iff.mp hj
  split
  · rename_i he
    exact .inr ⟨c, he ▸ hc, rfl⟩
  · exact .inl (List.mem_of_getElem? hc)

theorem start_id {plan : GraphPlan} {id : GraphId} {state : GraphState}
    (h : GraphState.start conf plan id now = .ok state) : state.graph.id = id := by
  obtain ⟨s₀, t, hcheck, hins, ht, rfl⟩ := GraphState.start_ok h
  rw [(GraphState.maybeSettle_keeps t now).id,
    (GraphState.dispatchFrontier_ok (hins.consistent hcheck) ht).1]
  exact hins.id

/-- A plan that is refused is refused under any id. -/
theorem start_refused {plan : GraphPlan} {e : QraftError} (h : plan.check = .error e) (id : GraphId)
    (now : Time) : GraphState.start conf plan id now = .error e := by
  unfold GraphState.start
  rw [h]
  rfl

/-- How a call may end under a key: with the graph of the key, or refused. -/
structure Ends (conf : RetryDefaults) (planHash : List NodeSpec → String) (s : Submissions)
    (c : StartCall) (key : String) : Prop where
  returned : ∀ id, c.phase = .returned id → ∃ g ∈ s.graphs, g.requestKey = some key ∧
    g.state.graph.id = id ∧ g.planHash = planHash c.plan.nodes
  raised : ∀ e, c.phase = .raised e → (∃ id now, GraphState.start conf c.plan id now = .error e) ∨
    (e = keyUsed key ∧ ∃ g ∈ s.graphs, g.requestKey = some key ∧ g.planHash ≠ planHash c.plan.nodes)

/-- A call that has not ended. -/
theorem ends_of_running {c : StartCall} {key : String} (hr : ∀ id, c.phase ≠ .returned id)
    (he : ∀ e, c.phase ≠ .raised e) : Ends conf planHash s c key :=
  ⟨fun id hid => absurd hid (hr id), fun e hphase => absurd hphase (he e)⟩

/-- A call that raised the refusal of its plan. -/
theorem ends_of_refused {c : StartCall} {key : String} {e : QraftError} {id : GraphId}
    (hphase : c.phase = .raised e) (h : GraphState.start conf c.plan id now = .error e) :
    Ends conf planHash s c key := by
  refine ⟨?_, ?_⟩
  · intro id hid
    rw [hphase] at hid
    cases hid
  · intro e' he
    rw [hphase] at he
    cases he
    exact .inl ⟨id, now, h⟩

/-- The graphs a run has created, and the calls that did. -/
structure Sound (conf : RetryDefaults) (planHash : List NodeSpec → String) (s : Submissions) : Prop where
  single : ∀ key, (s.graphs.filter fun g => g.requestKey = some key).length ≤ 1
  ends : ∀ c ∈ s.calls, ∀ key, c.requestKey = some key → Ends conf planHash s c key
  origin : ∀ g ∈ s.graphs, ∃ c ∈ s.calls, c.requestKey = g.requestKey ∧
    c.phase = .returned g.state.graph.id ∧ g.planHash = planHash c.plan.nodes

theorem mem_setPhase_of_mem {i : Nat} {phase : StartPhase} {c : StartCall} (h : c ∈ s.calls) :
    c ∈ (s.setPhase i phase).calls ∨ s.calls[i]? = some c := by
  obtain ⟨j, hj⟩ := List.mem_iff_getElem?.mp h
  by_cases he : i = j
  · exact .inr (he ▸ hj)
  · left
    apply List.mem_iff_getElem?.mpr
    refine ⟨j, ?_⟩
    rw [setPhase, List.getElem?_modify, hj]
    exact congrArg some (if_neg he)

theorem Ends.mono {c : StartCall} {key : String} (h : Ends conf planHash s c key)
    (hsub : s.graphs ⊆ s'.graphs) : Ends conf planHash s' c key := by
  refine ⟨?_, ?_⟩
  · intro id hid
    obtain ⟨g, hg, hrow⟩ := h.returned id hid
    exact ⟨g, hsub hg, hrow⟩
  · intro e he
    rcases h.raised e he with hstart | ⟨hused, g, hg, hrow⟩
    · exact .inl hstart
    · exact .inr ⟨hused, g, hsub hg, hrow⟩

/-- The lookup ends a call with the graph of its key, or refuses it. -/
theorem check_ends (c : StartCall) {key : String} (hkey : c.requestKey = some key) :
    Ends conf planHash s { c with phase := s.check planHash c } key := by
  have inserting : Ends conf planHash s { c with requestKey := some key, phase := .inserting } key :=
    ends_of_running (by rintro id ⟨⟩) (by rintro e ⟨⟩)
  unfold check
  cases hcheck : c.plan.check with
  | error e => exact ends_of_refused rfl (start_refused hcheck 0 0)
  | ok u =>
    rw [hkey]
    dsimp only
    split
    · exact inserting
    · exact inserting
    · rename_i k hne hk
      obtain rfl := Option.some.inj hk
      split
      · exact inserting
      · rename_i existing hfind
        have hheld := List.find?_some hfind
        have hheld := of_decide_eq_true hheld
        have hmem := List.mem_of_find?_eq_some hfind
        split
        · rename_i hhash
          refine ⟨by rintro id ⟨⟩, ?_⟩
          rintro e ⟨⟩
          exact .inr ⟨rfl, existing, hmem, hheld, hhash⟩
        · rename_i hhash
          refine ⟨?_, by rintro e ⟨⟩⟩
          rintro id ⟨⟩
          exact ⟨existing, hmem, hheld, rfl, not_not.mp hhash⟩

/-- A call that creates no graph goes on. -/
theorem Sound.setPhase (h : Sound conf planHash s) {i : Nat} {c : StartCall} {phase : StartPhase}
    (hc : s.calls[i]? = some c) (hrunning : ∀ id, c.phase ≠ .returned id)
    (hends : ∀ key, c.requestKey = some key → Ends conf planHash s { c with phase } key) :
    Sound conf planHash (s.setPhase i phase) := by
  refine ⟨h.single, ?_, ?_⟩
  · intro c' hc' key hkey
    rcases mem_setPhase hc' with hold | ⟨d, hd, rfl⟩
    · exact (h.ends c' hold key hkey).mono fun _ hg => hg
    · obtain rfl := Option.some.inj (hc.symm.trans hd)
      exact (hends key hkey).mono fun _ hg => hg
  · intro g hg
    obtain ⟨d, hd, hkey, hphase, hhash⟩ := h.origin g hg
    rcases mem_setPhase_of_mem hd with hd' | hd'
    · exact ⟨d, hd', hkey, hphase, hhash⟩
    · obtain rfl := Option.some.inj (hc.symm.trans hd')
      exact absurd hphase (hrunning _)

/-- A graph is created under a key that is free, and its call returns it. -/
theorem Sound.created (h : Sound conf planHash s) {i : Nat} {c : StartCall} {state : GraphState}
    (hc : s.calls[i]? = some c) (hrunning : ∀ id, c.phase ≠ .returned id) (hfree : s.keyFree c = true)
    (hstart : GraphState.start conf c.plan s.graphs.length now = .ok state) :
    Sound conf planHash ({ s with graphs := s.graphs ++ [c.row planHash state] }.setPhase i
      (.returned s.graphs.length)) := by
  have hid := start_id hstart
  have hsub : s.graphs ⊆ s.graphs ++ [c.row planHash state] := List.subset_append_left _ _
  refine ⟨?_, ?_, ?_⟩
  · intro key
    have hold := h.single key
    simp only [Submissions.setPhase, List.filter_append, List.length_append]
    by_cases hkey : c.requestKey = some key
    · have hnone : (s.graphs.filter fun g => g.requestKey = some key) = [] := by
        rw [List.filter_eq_nil_iff]
        intro g hg hsel
        simp only [keyFree, hkey, Option.isNone_some, Bool.false_or, List.all_eq_true] at hfree
        exact of_decide_eq_true (hfree g hg) (of_decide_eq_true hsel)
      rw [hnone]
      exact Nat.le_trans (Nat.add_le_add_left (List.length_filter_le _ _) _) (Nat.le_of_eq rfl)
    · have hnone : ([c.row planHash state].filter fun g => g.requestKey = some key) = [] := by
        simp [StartCall.row, hkey]
      rw [hnone]
      exact hold
  · intro c' hc' key hkey
    rcases mem_setPhase hc' with hold | ⟨d, hd, rfl⟩
    · exact (h.ends c' hold key hkey).mono hsub
    · obtain rfl := Option.some.inj (hc.symm.trans hd)
      refine ⟨?_, by rintro e ⟨⟩⟩
      rintro id ⟨⟩
      exact ⟨_, List.mem_append_right _ List.mem_cons_self, hkey, hid, rfl⟩
  · intro g hg
    rcases List.mem_append.mp hg with hg | hg
    · obtain ⟨d, hd, hkey, hphase, hhash⟩ := h.origin g hg
      rcases mem_setPhase_of_mem (s := { s with graphs := s.graphs ++ [_] }) hd with hd' | hd'
      · exact ⟨d, hd', hkey, hphase, hhash⟩
      · obtain rfl := Option.some.inj (hc.symm.trans hd')
        exact absurd hphase (hrunning _)
    · rw [List.mem_singleton.mp hg]
      refine ⟨{ c with phase := .returned s.graphs.length }, ?_, rfl, ?_, rfl⟩
      · apply List.mem_iff_getElem?.mpr
        exact ⟨i, by rw [Submissions.setPhase, List.getElem?_modify_eq, hc]; rfl⟩
      · exact congrArg StartPhase.returned hid.symm

theorem Sound.next (h : Sound conf planHash s) {e : SubmissionEvent} (hfree : s.Uncontended (e, now))
    (hstep : s.step conf planHash now e = some s') : Sound conf planHash s' := by
  cases e with
  | start plan requestKey =>
    cases hstep
    refine ⟨h.single, ?_, ?_⟩
    · intro c hc key hkey
      rcases List.mem_append.mp hc with hc | hc
      · exact (h.ends c hc key hkey).mono fun _ hg => hg
      · rw [List.mem_singleton.mp hc]
        exact ends_of_running (by rintro id ⟨⟩) (by rintro e ⟨⟩)
    · intro g hg
      obtain ⟨c, hc, hrow⟩ := h.origin g hg
      exact ⟨c, List.mem_append_left _ hc, hrow⟩
  | check i =>
    obtain ⟨c, hc, hstep⟩ := Option.bind_eq_some_iff.mp hstep
    cases hphase : c.phase with
    | called =>
      simp only [hphase] at hstep
      cases hstep
      apply h.setPhase hc
      · intro id hid
        rw [hphase] at hid
        cases hid
      · exact fun key hkey => check_ends c hkey
    | inserting | returned id | raised e =>
      simp only [hphase] at hstep
      cases hstep
  | insert i =>
    obtain ⟨c, hc, hstep⟩ := Option.bind_eq_some_iff.mp hstep
    cases hphase : c.phase with
    | inserting =>
      simp only [hphase] at hstep
      cases hstep
      have hrunning : ∀ id, c.phase ≠ .returned id := by
        intro id hid
        rw [hphase] at hid
        cases hid
      have hkeyFree : s.keyFree c = true := hfree c hc
      unfold insert
      split
      · rename_i hheld
        obtain ⟨hsome, hany⟩ := hheld
        obtain ⟨g, hg, hkey⟩ := List.any_eq_true.mp hany
        have hnone : c.requestKey.isNone = false := by
          rw [← Option.not_isSome, hsome]
          rfl
        rw [keyFree, hnone, Bool.false_or, List.all_eq_true] at hkeyFree
        exact absurd (of_decide_eq_true hkey) (of_decide_eq_true (hkeyFree g hg))
      · split
        · rename_i e he
          apply h.setPhase hc hrunning
          exact fun key _ => ends_of_refused rfl he
        · rename_i state hstate
          exact h.created hc hrunning hkeyFree hstate
    | called | returned id | raised e =>
      simp only [hphase] at hstep
      cases hstep

theorem reach_sound (h : (submissionSystem conf planHash).ReachWhen Uncontended s) :
    Sound conf planHash s := by
  apply h.invariant (Sound conf planHash)
  · rintro s rfl
    exact ⟨fun _ => Nat.zero_le _, fun c hc => absurd hc List.not_mem_nil,
      fun g hg => absurd hg List.not_mem_nil⟩
  · rintro s ⟨e, now⟩ s' hs hfree hstep
    exact hs.next hfree hstep

/-- A step after which another call has raised created nothing. -/
theorem raised_creates_nothing {e : SubmissionEvent} (hstep : s.step conf planHash now e = some s')
    {i : Nat} {err : QraftError} (hbefore : s.phaseOf i ≠ some (.raised err))
    (hafter : s'.phaseOf i = some (.raised err)) : s'.graphs = s.graphs := by
  cases e with
  | start plan requestKey =>
    cases hstep
    rfl
  | check j =>
    obtain ⟨c, hc, hstep⟩ := Option.bind_eq_some_iff.mp hstep
    split at hstep
    · cases hstep
      rfl
    · cases hstep
  | insert j =>
    obtain ⟨c, hc, hstep⟩ := Option.bind_eq_some_iff.mp hstep
    split at hstep
    · cases hstep
      unfold insert at hafter ⊢
      split
      · rfl
      · rename_i hkey
        split
        · rfl
        · rename_i state hstate
          rw [if_neg hkey, hstate] at hafter
          dsimp only at hafter
          rw [phaseOf, setPhase, List.getElem?_modify] at hafter
          obtain ⟨d, hd, hphase⟩ := Option.map_eq_some_iff.mp hafter
          obtain ⟨b, hb, he⟩ := Option.map_eq_some_iff.mp hd
          split at he
          · rw [← he] at hphase
            cases hphase
          · rw [← he] at hphase
            refine absurd ?_ hbefore
            rw [phaseOf, hb, Option.map_some, hphase]
    · cases hstep

/-- A call that has not ended can go on. -/
theorem goes_on {i : Nat} {c : StartCall} (hc : s.calls[i]? = some c) :
    (c.phase = .called → (s.step conf planHash now (.check i)).isSome) ∧
      (c.phase = .inserting → (s.step conf planHash now (.insert i)).isSome) := by
  constructor
  · intro hphase
    simp [step, hc, hphase]
  · intro hphase
    simp [step, hc, hphase]

/-- While no insert finds its key taken, a request key stands for one graph: there is at most one,
every call that returns returns it and was made with its plan, a call that raises has a plan that is
refused anyway or differs from that of a call that returned, and it creates nothing. -/
theorem start_idempotent (h : (submissionSystem conf planHash).ReachWhen Uncontended s) (key : String) :
    (s.graphs.filter fun g => g.requestKey = some key).length ≤ 1 ∧
    (∀ c ∈ s.calls, c.requestKey = some key → ∀ id, c.phase = .returned id →
      ∃ g ∈ s.graphs, g.requestKey = some key ∧ g.state.graph.id = id ∧
        g.planHash = planHash c.plan.nodes) ∧
    (∀ c ∈ s.calls, c.requestKey = some key → ∀ e, c.phase = .raised e →
      (∃ id now, GraphState.start conf c.plan id now = .error e) ∨
      (e = keyUsed key ∧ ∃ d ∈ s.calls, d.requestKey = some key ∧ (∃ id, d.phase = .returned id) ∧
        planHash d.plan.nodes ≠ planHash c.plan.nodes)) ∧
    (∀ e now s', s.step conf planHash now e = some s' → ∀ i err, s.phaseOf i ≠ some (.raised err) →
      s'.phaseOf i = some (.raised err) → s'.graphs = s.graphs) ∧
    ∀ i c now, s.calls[i]? = some c →
      (c.phase = .called → (s.step conf planHash now (.check i)).isSome) ∧
      (c.phase = .inserting → (s.step conf planHash now (.insert i)).isSome) := by
  have hs := reach_sound h
  refine ⟨hs.single key, ?_, ?_, ?_, ?_⟩
  · intro c hc hkey id hphase
    exact (hs.ends c hc key hkey).returned id hphase
  · intro c hc hkey e hphase
    rcases (hs.ends c hc key hkey).raised e hphase with hstart | ⟨he, g, hg, hgkey, hhash⟩
    · exact .inl hstart
    · obtain ⟨d, hd, hdkey, hdphase, hdhash⟩ := hs.origin g hg
      exact .inr ⟨he, d, hd, hdkey.trans hgkey, ⟨_, hdphase⟩, hdhash ▸ hhash⟩
  · intro e now s' hstep i err hbefore hafter
    exact raised_creates_nothing hstep hbefore hafter
  · intro i c now hc
    exact goes_on hc

def upload : GraphPlan :=
  { nodes := [{ key := "ingest", func := "app.ingest", recovery := .transactional }] }

/-- The digest of the runs below: what the plan calls its nodes. -/
def keysHash (nodes : List NodeSpec) : String := ",".intercalate (nodes.map fun n => n.key)

/-- Two calls for one upload, each before the other's insert. -/
def concurrentStarts : List (SubmissionEvent × Time) :=
  [.start upload (some "upload-4117"), .start upload (some "upload-4117"), .check 0, .check 1,
    .insert 0, .insert 1].map fun e => (e, 1)

/-- The second call comes once the first has committed. -/
def repeatedStarts : List (SubmissionEvent × Time) :=
  [.start upload (some "upload-4117"), .start upload (some "upload-4117"), .check 0, .insert 0,
    .check 1].map fun e => (e, 1)

theorem start_idempotent_repeated : ∃ s, (submissionSystem {} keysHash).ReachWhen Uncontended s ∧
    (s.calls.map fun c => (c.plan, c.requestKey)) =
      [(upload, some "upload-4117"), (upload, some "upload-4117")] ∧
    s.phaseOf 0 = some (.returned 0) ∧ s.phaseOf 1 = some (.returned 0) ∧
    (s.graphs.filter fun g => g.requestKey = some "upload-4117").length ≤ 1 := by
  have hinit : ((submissionSystem {} keysHash).guard Uncontended).Reach {} := .init rfl
  have hrun : ((submissionSystem {} keysHash).guard Uncontended).run {} repeatedStarts = some _ := rfl
  have hreach := StepSystem.reachWhen_of_guard (StepSystem.reach_of_run hinit hrun)
  exact ⟨_, hreach, rfl, rfl, rfl, (start_idempotent hreach "upload-4117").1⟩

/-- An insert that finds its key taken raises, whatever its plan. -/
theorem contended_insert_raises {i : Nat} {c : StartCall} (hc : s.calls[i]? = some c)
    (hphase : c.phase = .inserting) (htaken : s.keyFree c = false) :
    s.step conf planHash now (.insert i) =
      some (s.setPhase i (.raised (.integrityError "request_key"))) := by
  have hheld : c.requestKey.isSome ∧ s.graphs.any fun g => g.requestKey = c.requestKey := by
    simpa [keyFree, Option.isSome_iff_ne_none] using htaken
  simp only [step, hc, hphase, Option.bind_some, insert, if_pos hheld]

theorem concurrent_start_raises : ∃ s, (submissionSystem {} keysHash).Reach s ∧
    (s.calls.map fun c => (c.plan, c.requestKey)) =
      [(upload, some "upload-4117"), (upload, some "upload-4117")] ∧
    s.phaseOf 0 = some (.returned 0) ∧
    s.phaseOf 1 = some (.raised (.integrityError "request_key")) := by
  have hinit : (submissionSystem {} keysHash).Reach {} := .init rfl
  have hrun : (submissionSystem {} keysHash).run {} concurrentStarts = some _ := rfl
  exact ⟨_, StepSystem.reach_of_run hinit hrun, rfl, rfl, rfl⟩

end Submissions
end Qraft
