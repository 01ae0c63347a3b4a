import Mathlib.Data.List.Basic

/-! Processes in flight, kept in a list: one is replaced or dropped, the others stay, and what
the processes hold is read off with `filterMap`. -/
namespace InFlight
variable {α β : Type*} {l : List α} {k : Nat} {a : α}

/-- Around the process at a place. -/
theorem exists_split (h : l[k]? = some a) : ∃ l₁ l₂, l = l₁ ++ a :: l₂ ∧
    (∀ b, l.set k b = l₁ ++ b :: l₂) ∧ l.eraseIdx k = l₁ ++ l₂ := by
  obtain ⟨hk, rfl⟩ := List.getElem?_eq_some_iff.mp h
  refine ⟨l.take k, l.drop (k + 1), ?_, ?_, ?_⟩
  · rw [← List.drop_eq_getElem_cons hk, List.take_append_drop]
  · intro b
    rw [List.set_eq_take_append_cons_drop, if_pos hk]
  · rw [List.eraseIdx_eq_take_drop_succ]

/-- A process that held nothing goes on holding nothing. -/
theorem filterMap_set_none {f : α → Option β} (h : l[k]? = some a) (ha : f a = none) {b : α}
    (hb : f b = none) : (l.set k b).filterMap f = l.filterMap f := by
  obtain ⟨l₁, l₂, hl, hset, -⟩ := exists_split h
  rw [hset, hl, List.filterMap_append, List.filterMap_append, List.filterMap_cons_none hb,
    List.filterMap_cons_none ha]

theorem filterMap_eraseIdx_none {f : α → Option β} (h : l[k]? = some a) (ha : f a = none) :
    (l.eraseIdx k).filterMap f = l.filterMap f := by
  obtain ⟨l₁, l₂, hl, -, herase⟩ := exists_split h
  rw [herase, hl, List.filterMap_append, List.filterMap_append, List.filterMap_cons_none ha]

/-- Where nobody holds anything, a process comes to hold the one thing held. -/
theorem filterMap_set_some {f : α → Option β} (h : l[k]? = some a) (hnone : l.filterMap f = []) {b : α}
    {x : β} (hb : f b = some x) : (l.set k b).filterMap f = [x] := by
  obtain ⟨l₁, l₂, hl, hset, -⟩ := exists_split h
  rw [hl, List.filterMap_append, List.append_eq_nil_iff] at hnone
  have htail : l₂.filterMap f = [] := by
    cases ha : f a with
    | none =>
      rw [List.filterMap_cons_none ha] at hnone
      exact hnone.2
    | some y =>
      rw [List.filterMap_cons_some ha] at hnone
      exact absurd hnone.2 (List.cons_ne_nil _ _)
  rw [hset, List.filterMap_append, List.filterMap_cons_some hb, hnone.1, htail, List.nil_append]

/-- A process that held nothing comes to hold something. -/
theorem filterMap_set_cons {f : α → Option β} (h : l[k]? = some a) (ha : f a = none) {b : α} {x : β}
    (hb : f b = some x) : ((l.set k b).filterMap f).Perm (x :: l.filterMap f) := by
  obtain ⟨l₁, l₂, hl, hset, -⟩ := exists_split h
  rw [hset, hl, List.filterMap_append, List.filterMap_append, List.filterMap_cons_some hb,
    List.filterMap_cons_none ha]
  exact List.perm_middle

/-- What a process held is let go. -/
theorem filterMap_cons_set {f : α → Option β} (h : l[k]? = some a) {x : β} (ha : f a = some x) {b : α}
    (hb : f b = none) : (l.filterMap f).Perm (x :: (l.set k b).filterMap f) := by
  obtain ⟨l₁, l₂, hl, hset, -⟩ := exists_split h
  rw [hset, hl, List.filterMap_append, List.filterMap_append, List.filterMap_cons_some ha,
    List.filterMap_cons_none hb]
  exact List.perm_middle

theorem filterMap_cons_eraseIdx {f : α → Option β} (h : l[k]? = some a) {x : β} (ha : f a = some x) :
    (l.filterMap f).Perm (x :: (l.eraseIdx k).filterMap f) := by
  obtain ⟨l₁, l₂, hl, -, herase⟩ := exists_split h
  rw [herase, hl, List.filterMap_append, List.filterMap_append, List.filterMap_cons_some ha]
  exact List.perm_middle

end InFlight
