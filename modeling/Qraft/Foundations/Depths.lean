import Mathlib.Data.List.Perm.Subperm
import Mathlib.Order.Bounds.Basic
import Mathlib.Order.MinMax
import Qraft.Foundations.Dict
import Qraft.Foundations.Digraph

/-! Acyclic finite graphs: paths are shorter than the list of nodes, the depth-first check
passes, and the memoised recursion finds the longest path from a root. -/
namespace Digraph
variable {α : Type*}

/-- A path of `n` edges that ends in a node, each node of it a successor of the next. -/
inductive Path (R : α → α → Prop) (a : α) : Nat → α → Prop
  | nil : Path R a 0 a
  | snoc {n : Nat} {b c : α} (h : Path R a n b) (hc : R c b) : Path R a (n + 1) c

def Acyclic (R : α → α → Prop) : Prop := ∀ a, ¬ Relation.TransGen R a a

/-- The length of the longest path from a node without successors. -/
def Height (R : α → α → Prop) (a : α) (d : Nat) : Prop :=
  IsGreatest {n | ∃ r, (∀ b, ¬ R r b) ∧ Path R r n a} d

section
variable {R : α → α → Prop} {a b : α} {n d : Nat}

/-- The nodes of a path differ, as no node is below itself. -/
private theorem Path.exists_nodes (hac : Acyclic R) (h : Path R a n b) :
    ∃ l : List α, l.length = n + 1 ∧ l.Nodup ∧ ∀ x ∈ l, Relation.ReflTransGen R b x := by
  induction h with
  | nil => exact ⟨[a], rfl, List.nodup_singleton a, fun x hx => by rw [List.mem_singleton.mp hx]⟩
  | @snoc n b c h hc ih =>
    obtain ⟨l, hlength, hn, hl⟩ := ih
    have hnew : c ∉ l := fun hmem => hac c (.head' hc (hl c hmem))
    refine ⟨c :: l, by rw [List.length_cons, hlength], List.nodup_cons.mpr ⟨hnew, hn⟩, ?_⟩
    intro x hx
    rcases List.mem_cons.mp hx with hx | hx
    · rw [hx]
    · exact .head hc (hl x hx)

theorem Path.length_lt (hac : Acyclic R) {keys : List α} (hclosed : ∀ a ∈ keys, ∀ b, R a b → b ∈ keys)
    (hb : b ∈ keys) (h : Path R a n b) : n < keys.length := by
  obtain ⟨l, hlength, hn, hl⟩ := h.exists_nodes hac
  have hsubset : l ⊆ keys := by
    intro x hx
    have hreach := hl x hx
    clear hx
    induction hreach with
    | refl => exact hb
    | tail _ hstep ih => exact hclosed _ ih _ hstep
  have hle := (List.subperm_of_subset hn hsubset).length_le
  omega

theorem Height.unique {e : Nat} (h : Height R a d) (h' : Height R a e) : d = e := IsGreatest.unique h h'

theorem height_zero (h : ∀ b, ¬ R a b) : Height R a 0 := by
  refine ⟨⟨a, h, .nil⟩, ?_⟩
  rintro n ⟨r, -, hpath⟩
  cases hpath with
  | nil => exact le_rfl
  | snoc _ hc => exact absurd hc (h _)

/-- One more than the greatest of the heights below. -/
theorem height_succ (hb : R a b) (hd : Height R b d)
    (hle : ∀ c, R a c → ∃ e, Height R c e ∧ e ≤ d) : Height R a (d + 1) := by
  obtain ⟨r, hr, hpath⟩ := hd.1
  refine ⟨⟨r, hr, hpath.snoc hb⟩, ?_⟩
  rintro n ⟨s, hs, hpath⟩
  cases hpath with
  | nil => exact absurd hb (hs b)
  | @snoc m c _ h hc =>
    obtain ⟨e, he, hed⟩ := hle c hc
    have hm : m ≤ e := he.2 ⟨s, hs, h⟩
    omega

theorem Height.lt {e : Nat} (h : Height R a d) (hab : R a b) (hb : Height R b e) : e < d := by
  obtain ⟨r, hr, hpath⟩ := hb.1
  exact h.2 ⟨r, hr, hpath.snoc hab⟩

end

section CycleCheck
variable [DecidableEq α] {succ : α → List α}

/-- A successor list as a relation. -/
def Below (succ : α → List α) (a b : α) : Prop := b ∈ succ a

omit [DecidableEq α] in
private theorem foldlM_isSome {f : List α → α → Option (List α)} {keys : List α}
    (hf : ∀ key ∈ keys, ∀ done, (f done key).isSome) (done : List α) : (keys.foldlM f done).isSome := by
  induction keys generalizing done with
  | nil => rfl
  | cons key keys ih =>
    obtain ⟨mid, hmid⟩ := Option.isSome_iff_exists.mp (hf key List.mem_cons_self done)
    rw [List.foldlM_cons, hmid]
    exact ih (fun k hk => hf k (List.mem_cons_of_mem key hk)) mid

/-- Without cycles a visit never meets its own stack, and its fuel outlasts every path. -/
private theorem visit_isSome (hac : Acyclic (Below succ)) {fuel : Nat} {visiting done : List α} {key : α}
    (hfuel : ∀ r n, Path (Below succ) r n key → n < fuel)
    (hstack : ∀ v ∈ visiting, Relation.TransGen (Below succ) v key) :
    (visit succ fuel visiting done key).isSome := by
  induction fuel generalizing visiting done key with
  | zero => exact absurd (hfuel key 0 .nil) (Nat.lt_irrefl 0)
  | succ fuel ih =>
    have hoff : key ∉ visiting := fun hmem => hac key (hstack key hmem)
    rw [visit, if_neg hoff]
    split
    · rfl
    · rw [Option.isSome_map]
      apply foldlM_isSome
      intro dep hdep done
      apply ih
      · intro r n hpath
        have hlonger := hfuel r (n + 1) (hpath.snoc hdep)
        omega
      · intro v hv
        rcases List.mem_cons.mp hv with hv | hv
        · rw [hv]
          exact .single hdep
        · exact (hstack v hv).tail hdep

theorem hasCycle_eq_false (hac : Acyclic (Below succ)) {keys : List α}
    (hclosed : ∀ a ∈ keys, ∀ b, Below succ a b → b ∈ keys) :
    hasCycle succ (keys.length + 1) keys = false := by
  have hsome : (keys.foldlM (fun done key => visit succ (keys.length + 1) [] done key) []).isSome := by
    apply foldlM_isSome
    intro key hkey done
    apply visit_isSome hac
    · intro r n hpath
      have hlt := hpath.length_lt hac hclosed hkey
      omega
    · simp
  rw [hasCycle, Option.isNone_eq_false_iff]
  exact hsome

/-- A cycle through one of the keys would leave no first node in the order of discovery. -/
theorem acyclic_of_not_hasCycle {fuel : Nat} {keys : List α} (hkeys : ∀ a b, Below succ a b → a ∈ keys)
    (h : hasCycle succ fuel keys = false) : Acyclic (Below succ) := by
  obtain ⟨l, hl, hall⟩ := exists_topoSorted_of_not_hasCycle h
  intro a hcycle
  have hmem : a ∈ l := by
    obtain ⟨b, hab, -⟩ := Relation.TransGen.head'_iff.mp hcycle
    exact hall a (hkeys a b hab)
  obtain ⟨m, -, ⟨ham, hma⟩, hmin⟩ := hl.exists_minimal
    (fun x => Relation.TransGen (Below succ) a x ∧ Relation.TransGen (Below succ) x a) hmem ⟨hcycle, hcycle⟩
  obtain ⟨d, hmd, hda⟩ := Relation.TransGen.head'_iff.mp hma
  have hback : Relation.TransGen (Below succ) d a := by
    rcases Relation.reflTransGen_iff_eq_or_transGen.mp hda with he | hda
    · rw [← he]
      exact hcycle
    · exact hda
  exact hmin d hmd ⟨ham.tail hmd, hback⟩

end CycleCheck

section Memo
variable [DecidableEq α]

/-- The depth of a key, by recursion over its successors with every depth found kept.
`none` reports a key without an entry; so does running out of fuel. -/
def depth (succ? : α → Option (List α)) : Nat → List (α × Nat) → α → Option (Nat × List (α × Nat))
  | 0, _, _ => none
  | fuel + 1, depths, key =>
    match Dict.get? depths key with
    | some d => some (d, depths)
    | none => do
      let after ← succ? key
      let (deepest, depths) ← after.foldlM
        (fun (found : Nat × List (α × Nat)) dep => do
          let (d, depths) ← depth succ? fuel found.2 dep
          return (max found.1 d, depths)) (0, depths)
      let d := if after = [] then 0 else 1 + deepest
      return (d, Dict.set depths key d)

def depths (succ? : α → Option (List α)) (fuel : Nat) (keys : List α) : Option (List (α × Nat)) :=
  keys.foldlM (fun depths key => (depth succ? fuel depths key).map Prod.snd) []

/-- The entries of a partial successor function as a relation. -/
def Entry (succ? : α → Option (List α)) (a b : α) : Prop := ∃ after, succ? a = some after ∧ b ∈ after

variable {succ? : α → Option (List α)}

/-- Every depth kept is the height of its key. -/
private def Sound (succ? : α → Option (List α)) (depths : List (α × Nat)) : Prop :=
  ∀ key d, Dict.get? depths key = some d → Height (Entry succ?) key d

/-- What a call guarantees of the dictionary it leaves. -/
private structure Kept (succ? : α → Option (List α)) (depths depths' : List (α × Nat)) : Prop where
  sound : Sound succ? depths'
  keeps : ∀ key d, Dict.get? depths key = some d → Dict.get? depths' key = some d

private theorem Kept.trans {d₁ d₂ d₃ : List (α × Nat)} (h : Kept succ? d₁ d₂) (h' : Kept succ? d₂ d₃) :
    Kept succ? d₁ d₃ := ⟨h'.sound, fun key d hd => h'.keeps key d (h.keeps key d hd)⟩

/-- A depth kept for the key before would be this very depth. -/
private theorem Kept.set {depths : List (α × Nat)} (hs : Sound succ? depths) {key : α} {d : Nat}
    (hd : Height (Entry succ?) key d) : Kept succ? depths (Dict.set depths key d) := by
  refine ⟨?_, ?_⟩
  · intro k e he
    rw [Dict.get?_set] at he
    split at he
    · rename_i hk
      rw [hk, ← Option.some.inj he]
      exact hd
    · exact hs k e he
  · intro k e he
    rw [Dict.get?_set]
    split
    · rename_i hk
      rw [hk] at he
      rw [(hs key e he).unique hd]
    · exact he

/-- The loop over the successors ends with the greatest of their heights and what it began with. -/
private theorem foldlM_depth {fuel : Nat} {after : List α}
    (hf : ∀ dep ∈ after, ∀ depths, Sound succ? depths → ∃ d depths',
      depth succ? fuel depths dep = some (d, depths') ∧ Height (Entry succ?) dep d ∧ Kept succ? depths depths')
    {deepest : Nat} {depths : List (α × Nat)} (hs : Sound succ? depths) :
    ∃ m depths', after.foldlM (fun (found : Nat × List (α × Nat)) dep => do
          let (d, depths) ← depth succ? fuel found.2 dep
          return (max found.1 d, depths)) (deepest, depths) = some (m, depths') ∧
      Kept succ? depths depths' ∧ deepest ≤ m ∧
      (∀ dep ∈ after, ∃ d, Height (Entry succ?) dep d ∧ d ≤ m) ∧
      (m = deepest ∨ ∃ dep ∈ after, Height (Entry succ?) dep m) := by
  induction after generalizing deepest depths with
  | nil => exact ⟨deepest, depths, rfl, ⟨hs, fun _ _ h => h⟩, le_rfl, by simp, .inl rfl⟩
  | cons dep after ih =>
    obtain ⟨d, mid, hcall, hd, hmid⟩ := hf dep List.mem_cons_self depths hs
    obtain ⟨m, depths', hrest, hkept, hle, hall, hmax⟩ :=
      @ih (fun k hk => hf k (List.mem_cons_of_mem dep hk)) (max deepest d) mid hmid.sound
    refine ⟨m, depths', ?_, hmid.trans hkept, (le_max_left _ _).trans hle, ?_, ?_⟩
    · rw [List.foldlM_cons, hcall]
      exact hrest
    · intro k hk
      rcases List.mem_cons.mp hk with hk | hk
      · rw [hk]
        exact ⟨d, hd, (le_max_right _ _).trans hle⟩
      · exact hall k hk
    · rcases hmax with hm | ⟨k, hk, hm⟩
      · rcases max_choice deepest d with hc | hc
        · exact .inl (hm.trans hc)
        · refine .inr ⟨dep, List.mem_cons_self, ?_⟩
          rw [hm, hc]
          exact hd
      · exact .inr ⟨k, List.mem_cons_of_mem dep hk, hm⟩

/-- With fuel for every path below it a call returns the height of its key. -/
private theorem depth_spec {fuel : Nat} {depths : List (α × Nat)} {key : α}
    (hfuel : ∀ r n, Path (Entry succ?) r n key → n < fuel)
    (hentry : ∀ k, Relation.ReflTransGen (Entry succ?) key k → (succ? k).isSome) (hs : Sound succ? depths) :
    ∃ d depths', depth succ? fuel depths key = some (d, depths') ∧ Height (Entry succ?) key d ∧
      Kept succ? depths depths' ∧ Dict.get? depths' key = some d := by
  induction fuel generalizing depths key with
  | zero => exact absurd (hfuel key 0 .nil) (Nat.lt_irrefl 0)
  | succ fuel ih =>
    rw [depth]
    cases hmemo : Dict.get? depths key with
    | some d => exact ⟨d, depths, rfl, hs key d hmemo, ⟨hs, fun _ _ h => h⟩, hmemo⟩
    | none =>
      obtain ⟨after, hafter⟩ := Option.isSome_iff_exists.mp (hentry key .refl)
      have hedge (dep : α) : Entry succ? key dep ↔ dep ∈ after := by
        constructor
        · rintro ⟨l, hl, hdep⟩
          rw [hafter] at hl
          rw [Option.some.inj hl]
          exact hdep
        · exact fun hdep => ⟨after, hafter, hdep⟩
      have hcalls : ∀ dep ∈ after, ∀ depths, Sound succ? depths → ∃ d depths',
          depth succ? fuel depths dep = some (d, depths') ∧ Height (Entry succ?) dep d ∧
            Kept succ? depths depths' := by
        intro dep hdep depths hs
        have hstep : Entry succ? key dep := (hedge dep).mpr hdep
        obtain ⟨d, depths', hcall, hd, hkept, -⟩ := @ih depths dep
          (fun r n hpath => by
            have hlonger := hfuel r (n + 1) (hpath.snoc hstep)
            omega)
          (fun k hk => hentry k (.head hstep hk)) hs
        exact ⟨d, depths', hcall, hd, hkept⟩
      obtain ⟨m, depths', hfold, hkept, -, hall, hmax⟩ := @foldlM_depth _ _ _ _ _ hcalls 0 _ hs
      have hheight : Height (Entry succ?) key (if after = [] then 0 else 1 + m) := by
        split
        · rename_i hnil
          apply height_zero
          intro b hb
          rw [hedge, hnil] at hb
          cases hb
        · rename_i hne
          obtain ⟨dep, hdep, hd⟩ : ∃ dep ∈ after, Height (Entry succ?) dep m := by
            rcases hmax with hm | hmax
            · obtain ⟨dep, hdep⟩ := List.exists_mem_of_ne_nil after hne
              obtain ⟨d, hd, hle⟩ := hall dep hdep
              have hdm : d = m := by omega
              exact ⟨dep, hdep, hdm ▸ hd⟩
            · exact hmax
          rw [Nat.add_comm]
          exact height_succ ((hedge dep).mpr hdep) hd fun c hc => hall c ((hedge c).mp hc)
      have hset := Kept.set hkept.sound hheight
      refine ⟨_, _, ?_, hheight, hkept.trans hset, Dict.get?_set_self _ _ _⟩
      rw [hafter, Option.bind_eq_bind, Option.bind_some, hfold]
      rfl

/-- Over a universe of keys with entries that the successors do not leave, fuel for every path in
it finds every key's height. -/
theorem depths_spec {fuel : Nat} {keys : List α}
    (hfuel : ∀ key ∈ keys, ∀ r n, Path (Entry succ?) r n key → n < fuel)
    (hclosed : ∀ a ∈ keys, ∀ b, Entry succ? a b → b ∈ keys) (hentry : ∀ key ∈ keys, (succ? key).isSome) :
    ∃ found, depths succ? fuel keys = some found ∧
      ∀ key ∈ keys, ∃ d, Dict.get? found key = some d ∧ Height (Entry succ?) key d := by
  have hbelow : ∀ key ∈ keys, ∀ k, Relation.ReflTransGen (Entry succ?) key k → (succ? k).isSome := by
    intro key hkey k hreach
    apply hentry
    induction hreach with
    | refl => exact hkey
    | tail _ hstep ih => exact hclosed _ ih _ hstep
  -- The loop keeps what it found, for any part of the keys and any sound beginning.
  have hloop : ∀ (part : List α), part ⊆ keys → ∀ found, Sound succ? found →
      ∃ found', part.foldlM (fun depths key => (depth succ? fuel depths key).map Prod.snd) found =
        some found' ∧ Kept succ? found found' ∧
        ∀ key ∈ part, ∃ d, Dict.get? found' key = some d ∧ Height (Entry succ?) key d := by
    intro part
    induction part with
    | nil => exact fun _ found hs => ⟨found, rfl, ⟨hs, fun _ _ h => h⟩, by simp⟩
    | cons key part ih =>
      intro hsubset found hs
      have hkey : key ∈ keys := hsubset List.mem_cons_self
      obtain ⟨d, mid, hcall, hd, hmid, hget⟩ := depth_spec (hfuel key hkey) (hbelow key hkey) hs
      obtain ⟨found', hrest, hkept, hall⟩ :=
        ih (fun k hk => hsubset (List.mem_cons_of_mem key hk)) mid hmid.sound
      refine ⟨found', ?_, hmid.trans hkept, ?_⟩
      · rw [List.foldlM_cons, hcall]
        exact hrest
      · intro k hk
        rcases List.mem_cons.mp hk with hk | hk
        · rw [hk]
          exact ⟨d, hkept.keeps key d hget, hd⟩
        · exact hall k hk
  obtain ⟨found, hfold, -, hall⟩ := hloop keys (fun _ h => h) [] (fun _ _ h => by cases h)
  exact ⟨found, hfold, hall⟩

end Memo
end Digraph
