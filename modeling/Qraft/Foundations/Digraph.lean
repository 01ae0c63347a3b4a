import Mathlib.Algebra.BigOperators.Group.List.Basic
import Mathlib.Algebra.GroupWithZero.Nat
import Mathlib.Data.List.Basic
import Mathlib.Data.List.Nodup
import Mathlib.Logic.Relation

/-! Finite directed graphs given by a successor list: depth-first cycle check,
topological orders, and the set reachable from a list of starting points. -/
namespace Digraph
variable {α : Type*} (succ : α → List α)

/-- An order of discovery in which every element comes after its successors,
most recent first. -/
def TopoSorted : List α → Prop
  | [] => True
  | a :: l => a ∉ l ∧ (∀ d ∈ succ a, d ∈ l) ∧ TopoSorted l

variable {succ}

/-- In a topological order some element with a property has no successor with it. -/
theorem TopoSorted.exists_minimal {l : List α} (h : TopoSorted succ l) (p : α → Prop)
    {a : α} (ha : a ∈ l) (hp : p a) : ∃ m ∈ l, p m ∧ ∀ d ∈ succ m, ¬ p d := by
  induction l generalizing a with
  | nil => simp at ha
  | cons b l ih =>
    obtain ⟨_, hd, hl⟩ := h
    by_cases hex : ∃ x ∈ l, p x
    · obtain ⟨x, hx, hpx⟩ := hex
      obtain ⟨m, hm, hpm, hs⟩ := ih hl hx hpx
      exact ⟨m, List.mem_cons_of_mem b hm, hpm, hs⟩
    · have hab : a = b := by
        rcases List.mem_cons.mp ha with rfl | hl
        · rfl
        · exact absurd ⟨a, hl, hp⟩ hex
      subst hab
      exact ⟨a, List.mem_cons_self, hp, fun d hds hpd => hex ⟨d, hd d hds, hpd⟩⟩

/-- What a visit below the stack `visiting` guarantees of the finished list: it only
grows, and kept off the stack it stays off the stack and in order. -/
private structure Grows (succ : α → List α) (visiting done done' : List α) : Prop where
  subset : ∀ x ∈ done, x ∈ done'
  keeps : (∀ x ∈ visiting, x ∉ done) → TopoSorted succ done →
    (∀ x ∈ visiting, x ∉ done') ∧ TopoSorted succ done'

private theorem foldlM_grows {visiting : List α} {f : List α → α → Option (List α)}
    (hf : ∀ done key done', f done key = some done' → Grows succ visiting done done' ∧ key ∈ done')
    {keys done done' : List α} (h : keys.foldlM f done = some done') :
    Grows succ visiting done done' ∧ ∀ key ∈ keys, key ∈ done' := by
  induction keys generalizing done with
  | nil =>
    cases h
    exact ⟨⟨fun _ h => h, fun hd hs => ⟨hd, hs⟩⟩, by simp⟩
  | cons key keys ih =>
    rw [List.foldlM_cons] at h
    obtain ⟨mid, hm, hr⟩ := Option.bind_eq_some_iff.mp h
    obtain ⟨hg, hk⟩ := hf _ _ _ hm
    obtain ⟨hg', hks⟩ := ih hr
    refine ⟨⟨fun x hx => hg'.subset x (hg.subset x hx), ?_⟩, ?_⟩
    · intro hd hs
      obtain ⟨hd', hs'⟩ := hg.keeps hd hs
      exact hg'.keeps hd' hs'
    · intro x hx
      rcases List.mem_cons.mp hx with rfl | hx
      · exact hg'.subset _ hk
      · exact hks x hx

variable [DecidableEq α] (succ)

/-- Depth-first visit below the stack `visiting`, threading the finished nodes.
`none` reports a cycle; so does running out of fuel. -/
def visit : Nat → List α → List α → α → Option (List α)
  | 0, _, _, _ => none
  | fuel + 1, visiting, visited, key =>
    if key ∈ visiting then none
    else if key ∈ visited then some visited
    else ((succ key).foldlM (fun done dep => visit fuel (key :: visiting) done dep) visited).map
      (key :: ·)

def hasCycle (fuel : Nat) (keys : List α) : Bool :=
  (keys.foldlM (fun done key => visit succ fuel [] done key) []).isNone

variable {succ}

private theorem visit_grows {fuel : Nat} {visiting done done' : List α} {key : α}
    (h : visit succ fuel visiting done key = some done') :
    Grows succ visiting done done' ∧ key ∈ done' := by
  induction fuel generalizing visiting done done' key with
  | zero => simp [visit] at h
  | succ fuel ih =>
    rw [visit] at h
    split at h
    · simp at h
    · rename_i hv
      split at h
      · rename_i hd
        cases h
        exact ⟨⟨fun _ h => h, fun hd hs => ⟨hd, hs⟩⟩, hd⟩
      · rename_i hnew
        obtain ⟨mid, hm, rfl⟩ := Option.map_eq_some_iff.mp h
        have hvisit : ∀ done dep done', visit succ fuel (key :: visiting) done dep = some done' →
            Grows succ (key :: visiting) done done' ∧ dep ∈ done' := fun _ _ _ hs => ih hs
        obtain ⟨hg, hk⟩ := foldlM_grows hvisit hm
        refine ⟨⟨fun x hx => List.mem_cons_of_mem _ (hg.subset x hx), ?_⟩, List.mem_cons_self⟩
        intro hd hs
        -- The key joins the stack while its successors are visited.
        have hstack : ∀ x ∈ key :: visiting, x ∉ done := by
          intro x hx
          rcases List.mem_cons.mp hx with rfl | hx
          · exact hnew
          · exact hd x hx
        obtain ⟨hd', hs'⟩ := hg.keeps hstack hs
        refine ⟨?_, hd' key List.mem_cons_self, hk, hs'⟩
        intro x hx hmem
        rcases List.mem_cons.mp hmem with rfl | hmem
        · exact hv hx
        · exact hd' x (List.mem_cons_of_mem _ hx) hmem

/-- No cycle met means a topological order of everything below the keys exists. -/
theorem exists_topoSorted_of_not_hasCycle {fuel : Nat} {keys : List α}
    (h : hasCycle succ fuel keys = false) : ∃ l, TopoSorted succ l ∧ ∀ key ∈ keys, key ∈ l := by
  rw [hasCycle, Option.isNone_eq_false_iff, Option.isSome_iff_exists] at h
  obtain ⟨l, hl⟩ := h
  have hvisit : ∀ done key done', visit succ fuel [] done key = some done' →
      Grows succ [] done done' ∧ key ∈ done' := fun _ _ _ hs => visit_grows hs
  obtain ⟨hg, hk⟩ := foldlM_grows hvisit hl
  exact ⟨l, (hg.keeps (by simp) trivial).2, hk⟩

variable (succ)

/-- Take elements off a stack into the closure, pushing their successors. -/
def closeOver : Nat → List α → List α → List α
  | 0, _, closure => closure
  | _ + 1, [], closure => closure
  | fuel + 1, key :: stack, closure =>
    if key ∈ closure then closeOver fuel stack closure
    else closeOver fuel ((succ key).reverse ++ stack) (key :: closure)

/-- Edges leaving the keys of a universe not yet taken in. -/
private def edgesLeft (keys closure : List α) : Nat :=
  ((keys.filter (· ∉ closure)).map fun key => (succ key).length).sum

/-- Enough steps to empty the stack: one for each push that can still happen. -/
def closeFuel (keys named : List α) : Nat :=
  named.length + (keys.map fun key => (succ key).length).sum + 1

def closure (keys named : List α) : List α := closeOver succ (closeFuel succ keys named) named []

private theorem edgesLeft_cons {keys closure : List α} (hn : keys.Nodup) {key : α}
    (hk : key ∈ keys) (hc : key ∉ closure) :
    edgesLeft succ keys closure = (succ key).length + edgesLeft succ keys (key :: closure) := by
  induction keys with
  | nil => simp at hk
  | cons a keys ih =>
    obtain ⟨ha, hn⟩ := List.nodup_cons.mp hn
    rcases List.mem_cons.mp hk with rfl | hk
    · have hsame : keys.filter (fun x => x ∉ key :: closure) = keys.filter (fun x => x ∉ closure) := by
        apply List.filter_congr
        intro x hx
        have : x ≠ key := fun he => ha (he ▸ hx)
        simp [this]
      simp only [edgesLeft] at hsame ⊢
      rw [List.filter_cons_of_pos (by simpa using hc), List.filter_cons_of_neg (by simp), hsame]
      simp
    · have hne : a ≠ key := fun he => ha (he ▸ hk)
      have hrec := ih hn hk
      simp only [edgesLeft] at hrec ⊢
      by_cases hac : a ∈ closure
      · rw [List.filter_cons_of_neg (by simpa using hac), List.filter_cons_of_neg (by simp [hac])]
        exact hrec
      · rw [List.filter_cons_of_pos (by simpa using hac),
          List.filter_cons_of_pos (by simp [hac, hne])]
        simp only [List.map_cons, List.sum_cons, hrec]
        omega

variable {succ}

/-- The reachable-set loop keeps what it took in, ends closed under successors
and takes in nothing but successors of what was waiting. -/
private theorem closeOver_spec {keys : List α} (hn : keys.Nodup)
    (hsucc : ∀ key ∈ keys, ∀ d ∈ succ key, d ∈ keys) {fuel : Nat} {stack done : List α}
    (hstack : ∀ x ∈ stack, x ∈ keys) (hdone : ∀ x ∈ done, ∀ d ∈ succ x, d ∈ done ∨ d ∈ stack)
    (hfuel : stack.length + edgesLeft succ keys done < fuel) :
    (∀ x ∈ done, x ∈ closeOver succ fuel stack done) ∧
    (∀ x ∈ stack, x ∈ closeOver succ fuel stack done) ∧
    (∀ x ∈ closeOver succ fuel stack done, ∀ d ∈ succ x, d ∈ closeOver succ fuel stack done) ∧
    (∀ x ∈ closeOver succ fuel stack done, x ∈ done ∨
      ∃ y ∈ stack, Relation.ReflTransGen (fun a b => b ∈ succ a) y x) := by
  induction fuel generalizing stack done with
  | zero => omega
  | succ fuel ih =>
    cases stack with
    | nil =>
      simp only [closeOver]
      exact ⟨fun _ h => h, by simp, fun x hx d hd => (hdone x hx d hd).elim id (by simp),
        fun x hx => .inl hx⟩
    | cons key stack =>
      rw [closeOver]
      split
      · rename_i hmem
        have hd : ∀ x ∈ done, ∀ d ∈ succ x, d ∈ done ∨ d ∈ stack := by
          intro x hx d hds
          rcases hdone x hx d hds with h | h
          · exact .inl h
          · rcases List.mem_cons.mp h with rfl | h
            · exact .inl hmem
            · exact .inr h
        obtain ⟨h1, h2, h3, h4⟩ := ih (fun x hx => hstack x (List.mem_cons_of_mem _ hx)) hd
          (by simp only [List.length_cons] at hfuel; omega)
        refine ⟨h1, ?_, h3, ?_⟩
        · intro x hx
          rcases List.mem_cons.mp hx with rfl | hx
          · exact h1 _ hmem
          · exact h2 x hx
        · intro x hx
          rcases h4 x hx with h | ⟨y, hy, hr⟩
          · exact .inl h
          · exact .inr ⟨y, List.mem_cons_of_mem _ hy, hr⟩
      · rename_i hnew
        have hkey : key ∈ keys := hstack key List.mem_cons_self
        have hst : ∀ x ∈ (succ key).reverse ++ stack, x ∈ keys := by
          intro x hx
          rcases List.mem_append.mp hx with h | h
          · exact hsucc key hkey x (List.mem_reverse.mp h)
          · exact hstack x (List.mem_cons_of_mem _ h)
        have hd : ∀ x ∈ key :: done, ∀ d ∈ succ x,
            d ∈ key :: done ∨ d ∈ (succ key).reverse ++ stack := by
          intro x hx d hds
          rcases List.mem_cons.mp hx with rfl | hx
          · exact .inr (List.mem_append_left _ (List.mem_reverse.mpr hds))
          · rcases hdone x hx d hds with h | h
            · exact .inl (List.mem_cons_of_mem _ h)
            · rcases List.mem_cons.mp h with rfl | h
              · exact .inl List.mem_cons_self
              · exact .inr (List.mem_append_right _ h)
        have hleft := edgesLeft_cons succ hn hkey hnew
        obtain ⟨h1, h2, h3, h4⟩ := ih hst hd
          (by simp only [List.length_cons, List.length_append, List.length_reverse] at hfuel ⊢; omega)
        refine ⟨fun x hx => h1 x (List.mem_cons_of_mem _ hx), ?_, h3, ?_⟩
        · intro x hx
          rcases List.mem_cons.mp hx with rfl | hx
          · exact h1 _ List.mem_cons_self
          · exact h2 x (List.mem_append_right _ hx)
        · intro x hx
          rcases h4 x hx with h | ⟨y, hy, hr⟩
          · rcases List.mem_cons.mp h with rfl | h
            · exact .inr ⟨_, List.mem_cons_self, .refl⟩
            · exact .inl h
          · rcases List.mem_append.mp hy with hy | hy
            · exact .inr ⟨key, List.mem_cons_self, .head (List.mem_reverse.mp hy) hr⟩
            · exact .inr ⟨y, List.mem_cons_of_mem _ hy, hr⟩

/-- The computed closure is exactly the reachable set, over a universe of
distinct keys that the successor relation does not leave. -/
theorem mem_closure_iff {keys named : List α} (hn : keys.Nodup)
    (hsucc : ∀ key ∈ keys, ∀ d ∈ succ key, d ∈ keys) (hnamed : ∀ x ∈ named, x ∈ keys) {x : α} :
    x ∈ closure succ keys named ↔
      ∃ y ∈ named, Relation.ReflTransGen (fun a b => b ∈ succ a) y x := by
  have hleft : edgesLeft succ keys [] = (keys.map fun key => (succ key).length).sum := by
    simp [edgesLeft]
  have hfuel : named.length + edgesLeft succ keys [] < closeFuel succ keys named := by
    rw [hleft, closeFuel]
    omega
  obtain ⟨_, h2, h3, h4⟩ := closeOver_spec hn hsucc hnamed (by simp) hfuel
  constructor
  · intro hx
    exact (h4 x hx).elim (by simp) id
  · rintro ⟨y, hy, hr⟩
    induction hr with
    | refl => exact h2 y hy
    | tail _ hbc ih => exact h3 _ ih _ hbc

end Digraph
