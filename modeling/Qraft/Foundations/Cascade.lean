import Mathlib.Tactic.ByContra
import Mathlib.Tactic.Push

/-! Steps that wait for one another. Once it is said which steps are waived and which would pass, the
steps that get their turn are settled, whatever the order in which they are taken. -/

/-- The steps of a plan, what each waits for, which are waived, and which let those after them go on. -/
structure Cascade (κ : Type*) where
  step : κ → Prop
  waitsFor : κ → κ → Prop
  waived : κ → Prop
  passes : κ → Prop

namespace Cascade
variable {κ : Type*} {c : Cascade κ} {started : κ → Prop} {k : κ}

/-- A step has its turn when all it waits for is waived, or had its turn and passed. -/
inductive HasTurn (c : Cascade κ) : κ → Prop where
  | intro {k : κ} (hpass : ∀ d, c.waitsFor k d → ¬ c.waived d → c.passes d)
      (hturn : ∀ d, c.waitsFor k d → ¬ c.waived d → HasTurn c d) : HasTurn c k

/-- Whatever some step has, some step has and none that it waits for does. -/
def Grounded (c : Cascade κ) : Prop :=
  ∀ p : κ → Prop, ∀ k, c.step k → p k → ∃ k, c.step k ∧ p k ∧ ∀ d, c.waitsFor k d → ¬ p d

/-- What has been started, at a moment when nothing was started early and nothing more can start. -/
structure Quiescent (c : Cascade κ) (started : κ → Prop) : Prop where
  safe : ∀ k, started k → ∀ d, c.waitsFor k d → c.waived d ∨ started d ∧ c.passes d
  quiet : ∀ k, c.step k → ¬ c.waived k → ¬ started k →
    ∃ d, c.waitsFor k d ∧ ¬ c.waived d ∧ ¬ (started d ∧ c.passes d)
  closed : ∀ k, started k → c.step k
  within : ∀ k, c.step k → ∀ d, c.waitsFor k d → c.step d

theorem Quiescent.hasTurn (h : c.Quiescent started) (hwf : c.Grounded) (hk : started k) : c.HasTurn k := by
  by_contra hno
  obtain ⟨m, -, ⟨hm, hmno⟩, hbelow⟩ := hwf (fun k => started k ∧ ¬ c.HasTurn k) k (h.closed k hk) ⟨hk, hno⟩
  apply hmno
  constructor
  · intro d hd hw
    exact ((h.safe m hm d hd).resolve_left hw).2
  · intro d hd hw
    by_contra hdno
    exact hbelow d hd ⟨((h.safe m hm d hd).resolve_left hw).1, hdno⟩

theorem Quiescent.starts (h : c.Quiescent started) (hk : c.HasTurn k) (hstep : c.step k)
    (hw : ¬ c.waived k) : started k := by
  induction hk with
  | @intro k hpass hturn ih =>
    by_contra hno
    obtain ⟨d, hd, hdw, hstuck⟩ := h.quiet k hstep hw hno
    exact hstuck ⟨ih d hd hdw (h.within k hstep d hd) hdw, hpass d hd hdw⟩

/-- At quiescence the steps started are those that have their turn. -/
theorem Quiescent.started_iff (h : c.Quiescent started) (hwf : c.Grounded) (hstep : c.step k)
    (hw : ¬ c.waived k) : started k ↔ c.HasTurn k :=
  ⟨h.hasTurn hwf, fun hk => h.starts hk hstep hw⟩

end Cascade
