import Mathlib.Algebra.BigOperators.Group.List.Basic
import Mathlib.Algebra.GroupWithZero.Nat
import Mathlib.Algebra.Order.BigOperators.Group.List
import Mathlib.Algebra.Order.Group.Nat
import Qraft.Foundations.InFlight
import Qraft.Foundations.Rows
import Qraft.Foundations.StepSystem

/-! Runs that get somewhere: where a goal is not yet reached, some allowed step lowers a rank. For
processes in flight and rows of a table, how the sums and counts over them move. -/
namespace StepSystem
variable {σ ε : Type*} {sys : StepSystem σ ε} {P : σ → ε → Prop} {s t u : σ}

theorem Path.head {e : ε} (hp : P s e) (hs : sys.step s e = some t) (h : Path sys P t u) : Path sys P s u := by
  induction h with
  | refl => exact .step .refl hp hs
  | step _ hp' hs' ih => exact .step ih hp' hs'

/-- How a run may go on by so many allowed steps. -/
inductive PathIn (sys : StepSystem σ ε) (P : σ → ε → Prop) : σ → Nat → σ → Prop where
  | refl {s : σ} : PathIn sys P s 0 s
  | head {s t u : σ} {k : Nat} {e : ε} (hp : P s e) (hs : sys.step s e = some t) (hr : PathIn sys P t k u) :
      PathIn sys P s (k + 1) u

theorem PathIn.path {k : Nat} (h : PathIn sys P s k t) : Path sys P s t := by
  induction h with
  | refl => exact .refl
  | head hp hs _ ih => exact ih.head hp hs

/-- Ranking rule: if a state that has not reached the goal always has an allowed step to one of lower
rank, every state has a path to the goal of at most its rank many steps. -/
theorem exists_pathIn_of_rank (I goal : σ → Prop) (rank : σ → Nat)
    (hstep : ∀ s, I s → ¬ goal s → ∃ e s', P s e ∧ sys.step s e = some s' ∧ I s' ∧ rank s' < rank s)
    (hs : I s) : ∃ k t, k ≤ rank s ∧ PathIn sys P s k t ∧ I t ∧ goal t := by
  generalize hn : rank s = n
  induction n using Nat.strongRecOn generalizing s with
  | ind n ih =>
    by_cases hg : goal s
    · exact ⟨0, s, n.zero_le, .refl, hs, hg⟩
    · obtain ⟨e, s', hp, hstep', hs', hlt⟩ := hstep s hs hg
      obtain ⟨k, t, hk, hpath, ht⟩ := ih (rank s') (hn ▸ hlt) hs' rfl
      exact ⟨k + 1, t, by omega, .head hp hstep' hpath, ht⟩

theorem exists_path_of_rank (I goal : σ → Prop) (rank : σ → Nat)
    (hstep : ∀ s, I s → ¬ goal s → ∃ e s', P s e ∧ sys.step s e = some s' ∧ I s' ∧ rank s' < rank s)
    (hs : I s) : ∃ t, Path sys P s t ∧ I t ∧ goal t := by
  obtain ⟨k, t, -, hpath, ht⟩ := exists_pathIn_of_rank I goal rank hstep hs
  exact ⟨t, hpath.path, ht⟩

end StepSystem

namespace InFlight
variable {α : Type*} {l : List α} {k : Nat} {a b : α}

/-- One process moves a sum over all of them by its own part. -/
theorem sum_set (f : α → Nat) (h : l[k]? = some a) :
    ((l.set k b).map f).sum + f a = (l.map f).sum + f b := by
  obtain ⟨l₁, l₂, hl, hset, -⟩ := exists_split h
  rw [hset, hl]
  simp only [List.map_append, List.map_cons, List.sum_append, List.sum_cons]
  omega

theorem countP_set_true {p : α → Bool} (h : l[k]? = some a) (ha : p a = false) (hb : p b = true) :
    (l.set k b).countP p = l.countP p + 1 := by
  obtain ⟨l₁, l₂, hl, hset, -⟩ := exists_split h
  rw [hset, hl]
  simp only [List.countP_append, List.countP_cons, ha, hb, if_true, Bool.false_eq_true, if_false]
  omega

theorem countP_set_false {p : α → Bool} (h : l[k]? = some a) (ha : p a = true) (hb : p b = false) :
    (l.set k b).countP p + 1 = l.countP p := by
  obtain ⟨l₁, l₂, hl, hset, -⟩ := exists_split h
  rw [hset, hl]
  simp only [List.countP_append, List.countP_cons, ha, hb, if_true, Bool.false_eq_true, if_false]
  omega

/-- A process that goes on counting, or not counting, leaves the count. -/
theorem countP_set_same {p : α → Bool} (h : l[k]? = some a) (hp : p b = p a) :
    (l.set k b).countP p = l.countP p := by
  obtain ⟨l₁, l₂, hl, hset, -⟩ := exists_split h
  rw [hset, hl]
  simp only [List.countP_append, List.countP_cons, hp]

end InFlight

namespace Rows
variable {ρ : Type*} {p : ρ → Bool} {f : ρ → ρ} {rows : List ρ} {w : ρ → Nat}

theorem sum_updateWhere_le (hf : ∀ r ∈ rows, p r = true → w (f r) ≤ w r) :
    ((updateWhere p f rows).map w).sum ≤ (rows.map w).sum := by
  simp only [updateWhere, List.map_map]
  apply List.sum_le_sum
  intro r hr
  by_cases hp : p r
  · simpa [hp] using hf r hr hp
  · simp [hp]

theorem sum_le_length {c : Nat} (hw : ∀ r ∈ rows, w r ≤ c) : (rows.map w).sum ≤ c * rows.length := by
  induction rows with
  | nil => simp
  | cons r rows ih =>
    have hr := hw r List.mem_cons_self
    have hrest := ih fun r' hr' => hw r' (List.mem_cons_of_mem r hr')
    simp only [List.map_cons, List.sum_cons, List.length_cons, Nat.mul_add]
    omega

/-- An update that raises no selected row's weight and lowers one's lowers the sum. -/
theorem sum_updateWhere_lt (hf : ∀ r ∈ rows, p r = true → w (f r) ≤ w r) {row : ρ} (hrow : row ∈ rows)
    (hp : p row = true) (hlt : w (f row) < w row) :
    ((updateWhere p f rows).map w).sum < (rows.map w).sum := by
  simp only [updateWhere, List.map_map]
  apply List.sum_lt_sum
  · intro r hr
    by_cases hp : p r
    · simpa [hp] using hf r hr hp
    · simp [hp]
  · exact ⟨row, hrow, by simpa [hp] using hlt⟩

end Rows
