import Mathlib.Data.List.Basic

/-! Computations that either return or raise: what a returning one did, step by step. -/
namespace Transaction
universe u
variable {ε : Type*} {σ α β : Type u}

theorem bind_eq_ok {x : Except ε α} {f : α → Except ε β} {b : β} :
    x >>= f = .ok b ↔ ∃ a, x = .ok a ∧ f a = .ok b := by
  cases x with
  | error e => simp [bind, Except.bind]
  | ok a => simp [bind, Except.bind]

theorem map_eq_ok {x : Except ε α} {f : α → β} {b : β} :
    f <$> x = .ok b ↔ ∃ a, x = .ok a ∧ f a = b := by
  cases x with
  | error e => simp [Functor.map, Except.map]
  | ok a => simp [Functor.map, Except.map]

theorem toOption_eq_some {x : Except ε α} {a : α} : x.toOption = some a ↔ x = .ok a := by
  cases x with
  | error e => simp [Except.toOption]
  | ok b => simp [Except.toOption]

/-- A loop of checks that returned passed every check. -/
theorem forM_eq_ok {xs : List α} {f : α → Except ε PUnit} :
    forM xs f = .ok ⟨⟩ ↔ ∀ x ∈ xs, f x = .ok ⟨⟩ := by
  induction xs with
  | nil => simp [pure, Except.pure]
  | cons x xs ih =>
    rw [List.forM_cons, bind_eq_ok, List.forall_mem_cons, ih]
    exact ⟨fun ⟨_, hx, hs⟩ => ⟨hx, hs⟩, fun ⟨hx, hs⟩ => ⟨_, hx, hs⟩⟩

/-- Loop rule: an invariant that speaks of the elements still to come holds with none
left once a state-passing loop has returned. -/
theorem foldlM_invariant {f : σ → α → Except ε σ} (I : List α → σ → Prop)
    (hstep : ∀ x xs t t', I (x :: xs) t → f t x = .ok t' → I xs t') {xs : List α} {s s' : σ}
    (hs : I xs s) (h : xs.foldlM f s = .ok s') : I [] s' := by
  induction xs generalizing s with
  | nil =>
    cases h
    exact hs
  | cons x xs ih =>
    rw [List.foldlM_cons] at h
    obtain ⟨t, ht, hr⟩ := bind_eq_ok.mp h
    exact ih (hstep x xs s t hs ht) hr

/-- A loop whose every turn returns or raises whatever the state returns iff all its turns do. -/
theorem foldlM_returns_iff {f : σ → α → Except ε σ} {p : α → Prop} {xs : List α}
    (hf : ∀ s, ∀ x ∈ xs, (∃ t, f s x = .ok t) ↔ p x) (s : σ) :
    (∃ t, xs.foldlM f s = .ok t) ↔ ∀ x ∈ xs, p x := by
  induction xs generalizing s with
  | nil => simp [pure, Except.pure]
  | cons x xs ih =>
    have hrest : ∀ s, ∀ y ∈ xs, (∃ t, f s y = .ok t) ↔ p y := fun s y hy => hf s y (List.mem_cons_of_mem x hy)
    rw [List.forall_mem_cons, ← hf s x List.mem_cons_self]
    constructor
    · rintro ⟨u, hu⟩
      rw [List.foldlM_cons] at hu
      obtain ⟨t, ht, hr⟩ := bind_eq_ok.mp hu
      exact ⟨⟨t, ht⟩, (ih hrest t).mp ⟨u, hr⟩⟩
    · rintro ⟨⟨t, ht⟩, hall⟩
      obtain ⟨u, hu⟩ := (ih hrest t).mpr hall
      exact ⟨u, by rw [List.foldlM_cons]; exact bind_eq_ok.mpr ⟨t, ht, hu⟩⟩

end Transaction
