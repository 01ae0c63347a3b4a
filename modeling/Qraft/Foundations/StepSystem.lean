import Mathlib.Logic.Relation

/-! Systems that move by atomic steps. A step that is refused or rolled back is
`none` and leaves the state alone, so only accepted steps make a run. -/

/-- Initial states and a partial step function over events. -/
structure StepSystem (σ ε : Type*) where
  init : σ → Prop
  step : σ → ε → Option σ

namespace StepSystem
variable {σ ε : Type*} {sys : StepSystem σ ε}

/-- States of the runs whose accepted steps all meet `P`. -/
inductive ReachWhen (sys : StepSystem σ ε) (P : σ → ε → Prop) : σ → Prop where
  | init {s : σ} (h : sys.init s) : ReachWhen sys P s
  | step {s s' : σ} {e : ε} (hr : ReachWhen sys P s) (hp : P s e)
      (hs : sys.step s e = some s') : ReachWhen sys P s'

/-- States of arbitrary runs. -/
abbrev Reach (sys : StepSystem σ ε) : σ → Prop := ReachWhen sys (fun _ _ => True)

theorem ReachWhen.mono {P Q : σ → ε → Prop} (hpq : ∀ s e, P s e → Q s e) {s : σ}
    (h : ReachWhen sys P s) : ReachWhen sys Q s := by
  induction h with
  | init h => exact .init h
  | step _ hp hs ih => exact .step ih (hpq _ _ hp) hs

theorem ReachWhen.reach {P : σ → ε → Prop} {s : σ} (h : ReachWhen sys P s) : Reach sys s :=
  h.mono fun _ _ _ => trivial

/-- Invariant rule: what holds initially and survives every allowed step holds
in every state reached. -/
theorem ReachWhen.invariant {P : σ → ε → Prop} (I : σ → Prop)
    (hinit : ∀ s, sys.init s → I s)
    (hstep : ∀ s e s', I s → P s e → sys.step s e = some s' → I s')
    {s : σ} (h : ReachWhen sys P s) : I s := by
  induction h with
  | init h => exact hinit _ h
  | step _ hp hs ih => exact hstep _ _ _ ih hp hs

/-- Invariant rule relative to facts already known of the states reached. -/
theorem ReachWhen.invariant_of {P : σ → ε → Prop} (J I : σ → Prop)
    (hJ : ∀ s, ReachWhen sys P s → J s)
    (hinit : ∀ s, sys.init s → I s)
    (hstep : ∀ s e s', J s → I s → P s e → sys.step s e = some s' → I s')
    {s : σ} (h : ReachWhen sys P s) : I s := by
  induction h with
  | init h => exact hinit _ h
  | step hr hp hs ih => exact hstep _ _ _ (hJ _ hr) ih hp hs

/-- How a run may go on from a state: by accepted steps that all meet `P`. -/
inductive Path (sys : StepSystem σ ε) (P : σ → ε → Prop) (s : σ) : σ → Prop where
  | refl : Path sys P s s
  | step {t u : σ} {e : ε} (hr : Path sys P s t) (hp : P t e) (hs : sys.step t e = some u) :
      Path sys P s u

theorem ReachWhen.path {P : σ → ε → Prop} {s t : σ} (h : ReachWhen sys P s)
    (hp : Path sys P s t) : ReachWhen sys P t := by
  induction hp with
  | refl => exact h
  | step _ hp hs ih => exact .step ih hp hs

theorem Path.reach {P : σ → ε → Prop} {s t : σ} (hp : Path sys P s t) (h : Reach sys s) : Reach sys t := by
  induction hp with
  | refl => exact h
  | step _ _ hs ih => exact .step ih trivial hs

/-- Run a list of events, all of which must be accepted. -/
def run (sys : StepSystem σ ε) (s : σ) : List ε → Option σ
  | [] => some s
  | e :: es => (sys.step s e).bind fun t => sys.run t es

/-- An executed event list is a run. -/
theorem reach_of_run {s s' : σ} {es : List ε} (hs : Reach sys s)
    (h : sys.run s es = some s') : Reach sys s' := by
  induction es generalizing s with
  | nil => cases h; exact hs
  | cons e es ih =>
    obtain ⟨t, ht, hr⟩ := Option.bind_eq_some_iff.mp h
    exact ih (.step hs trivial ht) hr

/-- Replaying a recorded run to a state that meets a test exhibits a reachable
state meeting it. -/
theorem exists_reach_of_run (sys : StepSystem σ ε) (es : List ε) {s : σ} (hs : Reach sys s)
    (p : σ → Bool) (h : (sys.run s es).map p = some true) : ∃ s', Reach sys s' ∧ p s' = true := by
  obtain ⟨s', hr, hp⟩ := Option.map_eq_some_iff.mp h
  exact ⟨s', reach_of_run hs hr, hp⟩

/-- The system restricted to the steps that meet `P`. -/
def guard (sys : StepSystem σ ε) (P : σ → ε → Prop) [∀ s e, Decidable (P s e)] :
    StepSystem σ ε where
  init := sys.init
  step s e := if P s e then sys.step s e else none

theorem reachWhen_of_guard {P : σ → ε → Prop} [∀ s e, Decidable (P s e)] {s : σ}
    (h : Reach (sys.guard P) s) : ReachWhen sys P s := by
  induction h with
  | init h => exact .init h
  | step _ _ hs ih =>
    simp only [guard] at hs
    split at hs
    · rename_i hp
      exact .step ih hp hs
    · cases hs

end StepSystem
