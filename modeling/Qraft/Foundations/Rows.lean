import Mathlib.Data.List.Basic
import Mathlib.Data.List.Nodup

/-! Tables of rows, and the conditional update that is the only way to write one. -/
namespace Rows
variable {ρ κ : Type*}

/-- `filter(p).update(f)`: rewrite the rows a filter selects, in place. -/
def updateWhere (p : ρ → Bool) (f : ρ → ρ) (rows : List ρ) : List ρ :=
  rows.map fun r => if p r then f r else r

theorem mem_updateWhere {p : ρ → Bool} {f : ρ → ρ} {rows : List ρ} {r : ρ} :
    r ∈ updateWhere p f rows ↔ ∃ r₀ ∈ rows, r = if p r₀ then f r₀ else r₀ := by
  simp only [updateWhere, List.mem_map, eq_comm]

theorem mem_updateWhere_of_mem {p : ρ → Bool} {f : ρ → ρ} {rows : List ρ} {r : ρ}
    (h : r ∈ rows) : (if p r then f r else r) ∈ updateWhere p f rows :=
  mem_updateWhere.mpr ⟨r, h, rfl⟩

/-- An update of one row replaces it and leaves the others. -/
theorem mem_updateWhere_single {p : ρ → Bool} {f : ρ → ρ} {rows : List ρ} {row : ρ}
    (hrow : row ∈ rows) (hsel : ∀ r ∈ rows, p r = true ↔ r = row) {r : ρ} :
    r ∈ updateWhere p f rows ↔ (r ∈ rows ∧ r ≠ row) ∨ r = f row := by
  rw [mem_updateWhere]
  constructor
  · rintro ⟨r₀, h₀, rfl⟩
    by_cases he : r₀ = row
    · exact .inr (by rw [he, if_pos ((hsel row hrow).mpr rfl)])
    · rw [if_neg fun hp => he ((hsel r₀ h₀).mp hp)]
      exact .inl ⟨h₀, he⟩
  · rintro (⟨h, hne⟩ | rfl)
    · exact ⟨r, h, by rw [if_neg fun hp => hne ((hsel r h).mp hp)]⟩
    · exact ⟨row, hrow, by rw [if_pos ((hsel row hrow).mpr rfl)]⟩

/-- An update that keeps a column keeps the whole column. -/
theorem map_updateWhere {p : ρ → Bool} {f : ρ → ρ} {rows : List ρ} (g : ρ → κ)
    (hg : ∀ r ∈ rows, p r = true → g (f r) = g r) : (updateWhere p f rows).map g = rows.map g := by
  simp only [updateWhere, List.map_map]
  apply List.map_congr_left
  intro r hr
  by_cases hp : p r
  · simp [hp, hg r hr hp]
  · simp [hp]

theorem updateWhere_eq_self {p : ρ → Bool} {f : ρ → ρ} {rows : List ρ}
    (h : ∀ r ∈ rows, p r = true → f r = r) : updateWhere p f rows = rows := by
  have he : ∀ r ∈ rows, (if p r then f r else r) = id r := by
    intro r hr
    by_cases hp : p r
    · simp [hp, h r hr hp]
    · simp [hp]
  rw [updateWhere, List.map_congr_left he, List.map_id]

/-- Rows dropped or rewritten under their keys leave no new key. -/
theorem filterMap_sublist {f : ρ → Option ρ} {key : ρ → κ}
    (hf : ∀ r r', f r = some r' → key r' = key r) (rows : List ρ) :
    ((rows.filterMap f).map key).Sublist (rows.map key) := by
  induction rows with
  | nil => exact .slnil
  | cons r rows ih =>
    cases h : f r with
    | none =>
      rw [List.filterMap_cons_none h, List.map_cons]
      exact ih.cons _
    | some r' =>
      rw [List.filterMap_cons_some h, List.map_cons, List.map_cons, hf r r' h]
      exact ih.cons_cons _

/-- Two rows under one unique key are one row. -/
theorem eq_of_key_eq {key : ρ → κ} {rows : List ρ} (hn : (rows.map key).Nodup)
    {r t : ρ} (hr : r ∈ rows) (ht : t ∈ rows) (h : key r = key t) : r = t :=
  List.inj_on_of_nodup_map hn hr ht h

/-- The row stored under a key, as `filter(key=k).first()` reads it. -/
def get? [DecidableEq κ] (key : ρ → κ) (rows : List ρ) (k : κ) : Option ρ :=
  rows.find? fun r => key r = k

theorem get?_eq_some [DecidableEq κ] {key : ρ → κ} {rows : List ρ} {k : κ} {r : ρ}
    (h : get? key rows k = some r) : r ∈ rows ∧ key r = k :=
  ⟨List.mem_of_find?_eq_some h, by simpa using List.find?_some h⟩

theorem get?_of_mem [DecidableEq κ] {key : ρ → κ} {rows : List ρ} (hn : (rows.map key).Nodup)
    {r : ρ} (hr : r ∈ rows) : get? key rows (key r) = some r := by
  cases h : get? key rows (key r) with
  | none => exact absurd (List.find?_eq_none.mp h r hr) (by simp)
  | some t =>
    obtain ⟨ht, hk⟩ := get?_eq_some h
    rw [eq_of_key_eq hn ht hr hk]

/-- Rewritten under their keys, rows are found where they were. -/
theorem get?_map [DecidableEq κ] {key : ρ → κ} {f : ρ → ρ} (hf : ∀ r, key (f r) = key r)
    (rows : List ρ) (k : κ) : get? key (rows.map f) k = (get? key rows k).map f := by
  induction rows with
  | nil => rfl
  | cons r rows ih =>
    simp only [get?, List.map_cons, List.find?_cons, hf] at ih ⊢
    split
    · rfl
    · exact ih

theorem get?_append [DecidableEq κ] {key : ρ → κ} {rows : List ρ} {k : κ} {r : ρ}
    (h : get? key rows k = some r) (new : List ρ) : get? key (rows ++ new) k = some r := by
  rw [get?, List.find?_append, ← get?, h, Option.some_or]

end Rows
