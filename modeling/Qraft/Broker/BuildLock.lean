import Qraft.Broker.ForCluster

/-! The block of `_build_lock`: one call at a time is in it, and `Conf` is off by what that call has
patched and not put back. -/
namespace Qraft

namespace CallPhase
variable {κ : Type}

def inside : CallPhase κ → Bool
  | .holding _ | .patching _ _ _ | .constructing _ _ | .restoring _ _ _ | .leaving _ _ => true
  | .called | .looking _ | .waiting _ | .returned _ _ | .raised => false

/-- How far `Conf` is from what it was, while a call is in the block of the lock. -/
def Patched (original conf : BrokerConf) : CallPhase κ → Prop
  | .holding _ | .leaving _ _ => conf = original
  | .patching _ job todo => ∃ done, ConfAttribute.all = done ++ todo ∧
      job.saved = done.map (fun a => (a, original a)) ∧
      ∀ a, conf a = if a ∈ done then BrokerConf.ofConfig job.config a else original a
  | .constructing _ job => job.saved = ConfAttribute.all.map (fun a => (a, original a)) ∧
      conf = BrokerConf.ofConfig job.config
  | .restoring _ todo _ => ∃ done, ConfAttribute.all = done ++ todo.map Prod.fst ∧
      (∀ item ∈ todo, item.2 = original item.1) ∧ ∀ a ∈ done, conf a = original a
  | .called | .looking _ | .waiting _ | .returned _ _ | .raised => False

section
variable {original conf : BrokerConf} {listKey : String} {job : BuildJob κ} {built : Option (BrokerInstance κ)}

private theorem Patched.found (h : (holding listKey : CallPhase κ).Patched original conf) (hs : job.saved = []) :
    (patching listKey job ConfAttribute.all).Patched original conf := by
  refine ⟨[], rfl, hs, fun a => ?_⟩
  rw [if_neg List.not_mem_nil]
  exact congrFun h a

/-- One more attribute is saved and assigned. -/
private theorem Patched.assign {a : ConfAttribute} {todo : List ConfAttribute}
    (h : (patching listKey job (a :: todo)).Patched original conf) :
    (patching listKey { job with saved := job.saved ++ [(a, conf a)] } todo).Patched original
      (conf.assign a (BrokerConf.ofConfig job.config a)) := by
  obtain ⟨done, hall, hsaved, hconf⟩ := h
  have hnodup := ConfAttribute.nodup_all
  rw [hall, List.nodup_append] at hnodup
  have hnew : a ∉ done := fun hin => hnodup.2.2 a hin a List.mem_cons_self rfl
  refine ⟨done ++ [a], by rw [hall, List.append_assoc]; rfl, ?_, fun b => ?_⟩
  · dsimp only
    rw [hsaved, hconf a, if_neg hnew, List.map_append]
    rfl
  · dsimp only [BrokerConf.assign]
    by_cases hb : b = a
    · rw [if_pos hb, if_pos (List.mem_append_right _ (List.mem_singleton.mpr hb)), hb]
    · rw [if_neg hb, hconf b]
      simp [hb]

private theorem Patched.ready (h : (patching listKey job []).Patched original conf) :
    (constructing listKey job).Patched original conf := by
  obtain ⟨done, hall, hsaved, hconf⟩ := h
  rw [List.append_nil] at hall
  refine ⟨by rw [hall]; exact hsaved, funext fun a => ?_⟩
  exact (hconf a).trans (if_pos (hall ▸ a.mem_all))

/-- Whatever the constructor leaves in `Conf`, all of it is still to be put back. -/
private theorem Patched.constructed (h : (constructing listKey job).Patched original conf) (left : BrokerConf) :
    (restoring listKey job.saved built).Patched original left := by
  refine ⟨[], ?_, ?_, fun a ha => absurd ha List.not_mem_nil⟩
  · rw [h.1, List.map_map]
    exact (List.map_id _).symm
  · rw [h.1]
    intro item hitem
    obtain ⟨a, -, rfl⟩ := List.mem_map.mp hitem
    rfl

/-- One more attribute is put back. -/
private theorem Patched.restore {a : ConfAttribute} {value : Setting} {todo : List (ConfAttribute × Setting)}
    (h : (restoring listKey ((a, value) :: todo) built).Patched original conf) :
    (restoring listKey todo built).Patched original (conf.assign a value) := by
  obtain ⟨done, hall, hvalues, hconf⟩ := h
  refine ⟨done ++ [a], by rw [hall, List.append_assoc]; rfl,
    fun item hitem => hvalues item (List.mem_cons_of_mem _ hitem), fun b hb => ?_⟩
  dsimp only [BrokerConf.assign]
  by_cases hba : b = a
  · rw [if_pos hba, hba]
    exact hvalues (a, value) List.mem_cons_self
  · rw [if_neg hba]
    exact hconf b ((List.mem_append.mp hb).resolve_right fun h => hba (List.mem_singleton.mp h))

private theorem Patched.restored {out : Option (BrokerInstance κ)}
    (h : (restoring listKey [] built).Patched original conf) : (leaving listKey out).Patched original conf := by
  obtain ⟨done, hall, -, hconf⟩ := h
  rw [List.map_nil, List.append_nil] at hall
  exact funext fun a => hconf a (hall ▸ a.mem_all)

end

end CallPhase

namespace BrokerProcess
variable {κ : Type} [DecidableEq κ] {lib : BrokerLibrary κ} {p p' : BrokerProcess κ} {i j : Nat}
  {call other : BrokerCall κ} {phase : CallPhase κ}

omit [DecidableEq κ] in
/-- One call moves, and the others stay. -/
theorem calls_set (hc : p.calls[i]? = some call) (hcalls : p'.calls = p.calls.set i { call with phase })
    (hj : p'.calls[j]? = some other) :
    (j = i ∧ other = { call with phase }) ∨ (j ≠ i ∧ p.calls[j]? = some other) := by
  obtain ⟨hlt, -⟩ := List.getElem?_eq_some_iff.mp hc
  by_cases hij : j = i
  · rw [hij, hcalls, List.getElem?_set_self hlt] at hj
    exact .inl ⟨hij, (Option.some.inj hj).symm⟩
  · rw [hcalls, List.getElem?_set_ne (Ne.symm hij)] at hj
    exact .inr ⟨hij, hj⟩

omit [DecidableEq κ] in
theorem calls_set_self (hc : p.calls[i]? = some call) (hcalls : p'.calls = p.calls.set i { call with phase }) :
    p'.calls[i]? = some { call with phase } := by
  obtain ⟨hlt, -⟩ := List.getElem?_eq_some_iff.mp hc
  rw [hcalls, List.getElem?_set_self hlt]

omit [DecidableEq κ] in
/-- A new call comes after the others. -/
theorem calls_append (h : (p.calls ++ [call])[j]? = some other) : p.calls[j]? = some other ∨ other = call := by
  by_cases hlt : j < p.calls.length
  · rw [List.getElem?_append_left hlt] at h
    exact .inl h
  · rw [List.getElem?_append_right (Nat.not_lt.mp hlt)] at h
    exact .inr (List.mem_singleton.mp (List.mem_of_getElem? h))

theorem findJob_saved {pins : PinnedClasses κ} {job : BuildJob κ} (hj : p.findJob lib call = some (pins, job)) :
    job.saved = [] := by
  obtain ⟨out, -, he⟩ := Option.map_eq_some_iff.mp hj
  cases he
  rfl

/-- At most one call is in the block of the lock, and `Conf` is off by what it has patched only. -/
structure Guarded (p : BrokerProcess κ) : Prop where
  inside : ∀ i call, p.calls[i]? = some call → call.phase.inside = true → p.lock = .held i
  held : ∀ i, p.lock = .held i → ∃ call, p.calls[i]? = some call ∧ call.phase.inside = true ∧
    call.phase.Patched p.original p.conf
  free : p.lock = .free → p.conf = p.original

omit [DecidableEq κ] in
/-- A call moves without taking the lock or letting it go. -/
theorem Guarded.move (hg : p.Guarded) (hc : p.calls[i]? = some call)
    (hcalls : p'.calls = p.calls.set i { call with phase }) (hlock : p'.lock = p.lock)
    (horiginal : p'.original = p.original) (hinside : phase.inside = call.phase.inside)
    (hout : call.phase.inside = false → p'.conf = p.conf)
    (hin : call.phase.Patched p.original p.conf → call.phase.inside = true →
      phase.Patched p.original p'.conf) : p'.Guarded := by
  have hmine : call.phase.inside = true → p.lock = .held i := hg.inside i call hc
  refine ⟨?_, ?_, ?_⟩
  · intro j other hj hins
    rw [hlock]
    rcases calls_set hc hcalls hj with ⟨rfl, rfl⟩ | ⟨-, hj⟩
    · exact hmine (hinside.symm.trans hins)
    · exact hg.inside j other hj hins
  · intro j hl
    rw [hlock] at hl
    obtain ⟨other, ho, hins, hpatched⟩ := hg.held j hl
    rw [horiginal]
    by_cases hij : j = i
    · subst hij
      rw [hc] at ho
      cases ho
      exact ⟨_, calls_set_self hc hcalls, hinside.trans hins, hin hpatched hins⟩
    · have hidle : call.phase.inside = false := by
        apply Bool.eq_false_iff.mpr
        intro hins
        rw [hmine hins] at hl
        exact hij (BuildLock.held.inj hl).symm
      refine ⟨other, ?_, hins, ?_⟩
      · rw [hcalls, List.getElem?_set_ne (Ne.symm hij)]
        exact ho
      · rw [hout hidle]
        exact hpatched
  · intro hl
    rw [hlock] at hl
    have hidle : call.phase.inside = false := by
      apply Bool.eq_false_iff.mpr
      intro hins
      rw [hmine hins] at hl
      cases hl
    rw [hout hidle, horiginal]
    exact hg.free hl

omit [DecidableEq κ] in
/-- A call in the block finds `Conf` as far as it has patched it. -/
theorem Guarded.patched (hg : p.Guarded) (hc : p.calls[i]? = some call) (hins : call.phase.inside = true) :
    call.phase.Patched p.original p.conf := by
  obtain ⟨self, hself, -, hpatched⟩ := hg.held i (hg.inside i call hc hins)
  rw [hc] at hself
  cases hself
  exact hpatched

omit [DecidableEq κ] in
/-- The call in the block moves on in it. -/
private theorem Guarded.inner (hg : p.Guarded) (hc : p.calls[i]? = some call)
    (hcalls : p'.calls = p.calls.set i { call with phase }) (hlock : p'.lock = p.lock)
    (horiginal : p'.original = p.original) (hwas : call.phase.inside = true) (his : phase.inside = true)
    (hin : call.phase.Patched p.original p.conf → phase.Patched p.original p'.conf) : p'.Guarded := by
  apply hg.move hc hcalls hlock horiginal (his.trans hwas.symm)
  · intro hout
    rw [hwas] at hout
    cases hout
  · exact fun h _ => hin h

omit [DecidableEq κ] in
/-- A call outside the block moves on outside it. -/
private theorem Guarded.outer (hg : p.Guarded) (hc : p.calls[i]? = some call)
    (hwas : call.phase.inside = false) (his : phase.inside = false) : (p.setPhase i call phase).Guarded := by
  refine hg.move hc rfl rfl rfl (his.trans hwas.symm) (fun _ => rfl) ?_
  intro _ hin
  rw [hwas] at hin
  cases hin

omit [DecidableEq κ] in
private theorem Guarded.called (hg : p.Guarded) (hnew : call.phase.inside = false) :
    ({ p with calls := p.calls ++ [call] } : BrokerProcess κ).Guarded := by
  refine ⟨?_, ?_, hg.free⟩
  · intro j other hj hins
    rcases calls_append hj with hj | rfl
    · exact hg.inside j other hj hins
    · rw [hnew] at hins
      cases hins
  · intro j hl
    obtain ⟨other, ho, hins⟩ := hg.held j hl
    obtain ⟨hlt, -⟩ := List.getElem?_eq_some_iff.mp ho
    exact ⟨other, (List.getElem?_append_left hlt).trans ho, hins⟩

omit [DecidableEq κ] in
private theorem Guarded.acquired (hg : p.Guarded) (hc : p.calls[i]? = some call) (hl : p.lock = .free)
    (listKey : String) : ({ p.setPhase i call (.holding listKey) with lock := .held i }).Guarded := by
  refine ⟨?_, ?_, ?_⟩
  · intro j other hj hins
    rcases calls_set hc rfl hj with ⟨rfl, rfl⟩ | ⟨-, hj⟩
    · rfl
    · have hother := hg.inside j other hj hins
      rw [hl] at hother
      cases hother
  · intro j hj
    cases hj
    exact ⟨_, calls_set_self hc rfl, rfl, hg.free hl⟩
  · intro hfree
    cases hfree

omit [DecidableEq κ] in
private theorem Guarded.released (hg : p.Guarded) (hc : p.calls[i]? = some call)
    (hwas : call.phase.inside = true) (his : phase.inside = false) (hsame : p.conf = p.original) :
    ({ p.setPhase i call phase with lock := .free } : BrokerProcess κ).Guarded := by
  refine ⟨?_, (fun j hj => by cases hj), fun _ => hsame⟩
  intro j other hj hins
  rcases calls_set hc rfl hj with ⟨rfl, rfl⟩ | ⟨hij, hj⟩
  · rw [his] at hins
    cases hins
  · have hother := hg.inside j other hj hins
    rw [hg.inside i call hc hwas] at hother
    exact absurd (BuildLock.held.inj hother).symm hij

theorem broker_guarded {e : BrokerEvent} (hg : p.Guarded) (h : p.step lib e = some p') : p'.Guarded := by
  cases step_broker h with
  | called => exact hg.called rfl
  | reset | changed => exact ⟨hg.inside, hg.held, hg.free⟩
  | resolved hc hp | unresolved hc hp | hit hc hp | missed hc hp =>
    exact hg.outer hc (congrArg CallPhase.inside hp) rfl
  | acquired hc hp hl => exact hg.acquired hc hl _
  | waited hc hp | unfound hc hp =>
    refine hg.inner hc rfl rfl rfl (congrArg CallPhase.inside hp) rfl ?_
    rw [hp]
    exact id
  | found hc hp hb hj =>
    refine hg.inner hc rfl rfl rfl (congrArg CallPhase.inside hp) rfl ?_
    rw [hp]
    exact fun h => h.found (findJob_saved hj)
  | patched hc hp =>
    refine hg.inner hc rfl rfl rfl (congrArg CallPhase.inside hp) rfl ?_
    rw [hp]
    exact CallPhase.Patched.assign
  | ready hc hp =>
    refine hg.inner hc rfl rfl rfl (congrArg CallPhase.inside hp) rfl ?_
    rw [hp]
    exact CallPhase.Patched.ready
  | constructed returns conf hc hp =>
    refine hg.inner hc rfl rfl rfl (congrArg CallPhase.inside hp) rfl ?_
    rw [hp]
    exact fun h => h.constructed conf
  | restored hc hp =>
    refine hg.inner hc rfl rfl rfl (congrArg CallPhase.inside hp) rfl ?_
    rw [hp]
    exact CallPhase.Patched.restore
  | stored hc hp | unstored hc hp =>
    refine hg.inner hc rfl rfl rfl (congrArg CallPhase.inside hp) rfl ?_
    rw [hp]
    exact CallPhase.Patched.restored
  | released hc hp hphase =>
    rename_i i call listKey out phase
    have hwas : call.phase.inside = true := congrArg CallPhase.inside hp
    have hsame := hg.patched hc hwas
    rw [hp] at hsame
    refine hg.released hc hwas ?_ hsame
    rw [hphase]
    cases out with
    | none => rfl
    | some broker => rfl

end BrokerProcess
end Qraft
