import Mathlib.Data.Set.Basic
import Mathlib.Data.List.Nodup

/-! Delivery at most once through a claim. A deliverer reads a record, holds its key, and
later offers it: the offer is logged only if no claim stands for the key, and leaves one.
Forgetting a claim is safe once the key can neither be read again nor is held. -/
namespace ClaimOnce
variable {κ : Type*}

structure State (κ : Type*) where
  /-- Keys whose record can be read. -/
  live : Set κ
  /-- Keys read by a deliverer that has not offered them yet. -/
  held : Set κ
  claims : Set κ
  log : List κ

/-- What a system must do between two states for the log to stay free of duplicates. -/
inductive Step (s t : State κ) : Prop where
  /-- No delivery: new records have keys never logged, only records are read, and no claim
  is forgotten while its key is within reach. -/
  | internal (live : ∀ k ∈ t.live, k ∈ s.live ∨ k ∉ s.log)
      (held : ∀ k ∈ t.held, k ∈ s.held ∨ k ∈ s.live)
      (claims : ∀ k ∈ s.claims, k ∈ t.claims ∨ (k ∉ t.live ∧ k ∉ t.held)) (log : t.log = s.log)
  /-- The offer of a held key without a claim. -/
  | deliver (k : κ) (hk : k ∈ s.held) (hc : k ∉ s.claims) (live : t.live = s.live)
      (held : ∀ x ∈ t.held, x ∈ s.held) (claims : ∀ x ∈ s.claims, x ∈ t.claims)
      (hk' : k ∈ t.claims) (log : t.log = s.log ++ [k])

/-- Each key was delivered once, and what was delivered is claimed or out of reach. -/
structure Once (s : State κ) : Prop where
  nodup : s.log.Nodup
  guarded : ∀ k ∈ s.log, k ∈ s.claims ∨ (k ∉ s.live ∧ k ∉ s.held)

theorem Once.empty {s : State κ} (h : s.log = []) : Once s := by
  refine ⟨by simp [h], ?_⟩
  intro k hk
  simp [h] at hk

theorem Once.step {s t : State κ} (h : Once s) (hst : Step s t) : Once t := by
  cases hst with
  | internal live held claims log =>
    refine ⟨log ▸ h.nodup, ?_⟩
    intro k hk
    rw [log] at hk
    rcases h.guarded k hk with hc | ⟨hl, hh⟩
    · exact claims k hc
    · refine .inr ⟨?_, ?_⟩
      · intro hk'
        exact (live k hk').elim hl fun hn => hn hk
      · intro hk'
        exact (held k hk').elim hh hl
  | deliver k hk hc live held claims hk' log =>
    have hnew : k ∉ s.log := by
      intro hmem
      rcases h.guarded k hmem with hcl | ⟨_, hh⟩
      · exact hc hcl
      · exact hh hk
    refine ⟨?_, ?_⟩
    · rw [log]
      exact List.nodup_append.mpr ⟨h.nodup, by simp, by
        rintro x hx y hy rfl
        exact hnew (List.mem_singleton.mp hy ▸ hx)⟩
    · intro x hx
      rw [log, List.mem_append, List.mem_singleton] at hx
      rcases hx with hx | rfl
      · rcases h.guarded x hx with hcl | ⟨hl, hh⟩
        · exact .inl (claims x hcl)
        · exact .inr ⟨by rw [live]; exact hl, fun hx' => hh (held x hx')⟩
      · exact .inl hk'

end ClaimOnce
