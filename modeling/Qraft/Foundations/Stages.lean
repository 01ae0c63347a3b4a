import Mathlib.Data.List.Count
import Mathlib.Data.List.TakeDrop

/-! Programs of stages that run one after another, some of them behind a gate. A stage that broke may be
done again; a program that has not broken may be stopped. -/

inductive StagePoint where
  | unstarted
  /-- At the gate of a stage. -/
  | asking (i : Nat)
  | working (i : Nat)
  | broken (i : Nat)
  | done
  | stopped
  deriving DecidableEq, Repr

inductive StageMove where
  | enter
  | permit
  | pass
  | fail
  | redo
  | stop
  deriving DecidableEq, Repr

namespace StagePoint

/-- A stage is entered at its gate, if it has one. -/
def door (gates : List Bool) (i : Nat) : Option StagePoint :=
  gates[i]?.map fun gated => if gated then .asking i else .working i

def move (gates : List Bool) : StagePoint → StageMove → Option StagePoint
  | .unstarted, .enter => door gates 0
  | .asking i, .permit => some (.working i)
  | .working i, .pass => (door gates (i + 1)).or (some .done)
  | .working i, .fail => some (.broken i)
  | .broken i, .redo => some (.working i)
  | .unstarted, .stop | .asking _, .stop | .working _, .stop => some .stopped
  | _, _ => none

/-- Moves that lead a program from its start to where it stands. -/
inductive Plays (gates : List Bool) : List StageMove → StagePoint → Prop where
  | start : Plays gates [] .unstarted
  | next {moves : List StageMove} {st st' : StagePoint} {m : StageMove} (h : Plays gates moves st)
      (hm : move gates st m = some st') : Plays gates (moves ++ [m]) st'

/-- What the moves come to at each place: a pass for each stage left behind, a permit for each gate, and
a redo for each break but the one the program stands at. -/
def Accounts (gates : List Bool) (moves : List StageMove) : StagePoint → Prop
  | .unstarted => moves = []
  | .asking i => moves.count .pass = i ∧ moves.count .permit = (gates.take i).count true ∧
      moves.count .fail = moves.count .redo ∧ gates[i]? = some true
  | .working i => moves.count .pass = i ∧ moves.count .permit = (gates.take (i + 1)).count true ∧
      moves.count .fail = moves.count .redo ∧ i < gates.length
  | .broken i => moves.count .pass = i ∧ moves.count .permit = (gates.take (i + 1)).count true ∧
      moves.count .fail = moves.count .redo + 1 ∧ i < gates.length
  | .done => moves.count .pass = gates.length ∧ moves.count .permit = gates.count true ∧
      moves.count .fail = moves.count .redo
  | .stopped => True

section
variable {gates : List Bool} {moves : List StageMove} {st st' : StagePoint} {m : StageMove} {i : Nat}
  {gated : Bool}

theorem count_take_succ (h : gates[i]? = some gated) :
    (gates.take (i + 1)).count true = (gates.take i).count true + if gated then 1 else 0 := by
  rw [List.take_add_one, h, List.count_append]
  cases gated <;> rfl

theorem door_eq_some (h : door gates i = some st) :
    (gates[i]? = some true ∧ st = .asking i) ∨ (gates[i]? = some false ∧ st = .working i) := by
  obtain ⟨gated, hg, rfl⟩ := Option.map_eq_some_iff.mp h
  cases gated with
  | true => exact .inl ⟨hg, rfl⟩
  | false => exact .inr ⟨hg, rfl⟩

theorem door_eq_none : door gates i = none ↔ gates.length ≤ i := by
  rw [door, Option.map_eq_none_iff, List.getElem?_eq_none_iff]

/-- The door of a stage that all before it have passed. -/
theorem accounts_door (hpass : moves.count .pass = i)
    (hpermit : moves.count .permit = (gates.take i).count true)
    (hfail : moves.count .fail = moves.count .redo) (h : door gates i = some st) : Accounts gates moves st := by
  rcases door_eq_some h with ⟨hg, rfl⟩ | ⟨hg, rfl⟩
  · exact ⟨hpass, hpermit, hfail, hg⟩
  · refine ⟨hpass, ?_, hfail, (List.getElem?_eq_some_iff.mp hg).1⟩
    rw [count_take_succ hg]
    simpa using hpermit

theorem accounts_move (h : Accounts gates moves st) (hm : move gates st m = some st') :
    Accounts gates (moves ++ [m]) st' := by
  unfold move at hm
  split at hm
  · have hnil : moves = [] := h
    rw [hnil]
    exact accounts_door rfl (by simp) rfl hm
  · rename_i i
    obtain ⟨hpass, hpermit, hfail, hg⟩ := h
    cases hm
    refine ⟨by simp [hpass], ?_, by simp [hfail], (List.getElem?_eq_some_iff.mp hg).1⟩
    rw [count_take_succ hg]
    simp [hpermit]
  · rename_i i
    obtain ⟨hpass, hpermit, hfail, hlt⟩ := h
    have hpass' : (moves ++ [StageMove.pass]).count .pass = i + 1 := by simp [hpass]
    have hpermit' : (moves ++ [StageMove.pass]).count .permit = (gates.take (i + 1)).count true := by
      simp [hpermit]
    have hfail' : (moves ++ [StageMove.pass]).count .fail = (moves ++ [StageMove.pass]).count .redo := by
      simp [hfail]
    cases hd : door gates (i + 1) with
    | some st =>
      rw [hd] at hm
      cases hm
      exact accounts_door hpass' hpermit' hfail' hd
    | none =>
      rw [hd] at hm
      cases hm
      have hlen : gates.length = i + 1 := Nat.le_antisymm (door_eq_none.mp hd) hlt
      rw [← hlen, List.take_length] at hpermit'
      exact ⟨hpass'.trans hlen.symm, hpermit', hfail'⟩
  · obtain ⟨hpass, hpermit, hfail, hlt⟩ := h
    cases hm
    exact ⟨by simp [hpass], by simp [hpermit], by simp [hfail], hlt⟩
  · obtain ⟨hpass, hpermit, hfail, hlt⟩ := h
    cases hm
    exact ⟨by simp [hpass], by simp [hpermit], by simp [hfail], hlt⟩
  · cases hm
    trivial
  · cases hm
    trivial
  · cases hm
    trivial
  · cases hm

theorem Plays.accounts (h : Plays gates moves st) : Accounts gates moves st := by
  induction h with
  | start => rfl
  | next _ hm ih => exact accounts_move ih hm

end
end StagePoint
