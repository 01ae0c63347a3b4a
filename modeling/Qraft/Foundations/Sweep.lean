import Mathlib.Data.List.Basic
import Mathlib.Data.List.Dedup
import Mathlib.Order.Lattice

/-! Sweeps: loops over queried items in phases, the first turn that raises ending them all. A query
sorts its answer by a key. What such a sweep reaches is decided by where the raising items come in it. -/
namespace Sweep
variable {σ κ ι : Type*} [LinearOrder ι]

/-- Work through a list; a turn that raises is the last. -/
def run (turn : σ → κ → σ × Bool) : σ → List κ → σ × Bool
  | s, [] => (s, false)
  | s, x :: xs => if (turn s x).2 then turn s x else run turn (turn s x).1 xs

theorem run_append (turn : σ → κ → σ × Bool) (s : σ) (xs ys : List κ) : run turn s (xs ++ ys) =
    if (run turn s xs).2 then run turn s xs else run turn (run turn s xs).1 ys := by
  induction xs generalizing s with
  | nil => rfl
  | cons x xs ih =>
    rw [List.cons_append, run, run]
    by_cases ht : (turn s x).2 = true
    · rw [if_pos ht, if_pos ht, if_pos ht]
    · rw [if_neg ht, if_neg ht]
      exact ih _

/-- A query's answer, sorted by a key. Items of one key come in any order. -/
structure Enumerates (key : κ → ι) (items : List κ) (p : κ → Prop) : Prop where
  nodup : items.Nodup
  mem : ∀ x, x ∈ items ↔ p x
  sorted : items.Pairwise fun x y => key x ≤ key y

/-- Sorted by a finer order, a list is in the order of its keys. -/
private theorem exists_sorted (key : κ → ι) {le : κ → κ → Prop} [DecidableRel le] {items : List κ}
    (hn : items.Nodup) (htrans : ∀ x y z, le x y → le y z → le x z) (htotal : ∀ x y, le x y ∨ le y x)
    (hkey : ∀ x y, le x y → key x ≤ key y) :
    ∃ sorted : List κ, Enumerates key sorted (· ∈ items) ∧ sorted.Pairwise le := by
  have hperm := List.mergeSort_perm items fun x y => decide (le x y)
  have hsorted : (items.mergeSort fun x y => decide (le x y)).Pairwise le := by
    have hpair := @List.pairwise_mergeSort _ (fun x y => decide (le x y))
      (fun x y z hxy hyz => decide_eq_true (htrans x y z (of_decide_eq_true hxy) (of_decide_eq_true hyz)))
      (fun x y => by rw [← Bool.decide_or]; exact decide_eq_true (htotal x y)) items
    exact hpair.imp fun h => of_decide_eq_true h
  exact ⟨_, ⟨hperm.nodup_iff.mpr hn, fun _ => hperm.mem_iff, hsorted.imp fun h => hkey _ _ h⟩, hsorted⟩

/-- A filter over a finite table has an answer. -/
theorem exists_enumerates (key : κ → ι) {candidates : List κ} {p : κ → Prop} (h : ∀ x, p x → x ∈ candidates) :
    ∃ items, Enumerates key items p := by
  classical
  obtain ⟨items, hitems, -⟩ := @exists_sorted κ ι _ key (fun x y => key x ≤ key y) _ _
    ((List.nodup_dedup candidates).filter p) (fun _ _ _ => le_trans) (fun x y => le_total (key x) (key y))
    fun _ _ hle => hle
  refine ⟨items, hitems.nodup, fun x => ?_, hitems.sorted⟩
  rw [hitems.mem, List.mem_filter, List.mem_dedup, decide_eq_true_eq]
  exact ⟨fun hx => hx.2, fun hx => ⟨h x hx, hx⟩⟩

/-- Some answer has an item before another that no key puts ahead of it. -/
theorem Enumerates.exists_before {key : κ → ι} {items : List κ} {p : κ → Prop} (h : Enumerates key items p)
    {x y : κ} (hx : p x) (hle : key x ≤ key y) (hne : x ≠ y) :
    ∃ items, Enumerates key items p ∧ ∀ l₁ l₂, items = l₁ ++ y :: l₂ → x ∈ l₁ := by
  classical
  -- Items of one key are sorted with `x` as the first of them.
  obtain ⟨sorted, hs, hpair⟩ := @exists_sorted κ ι _ key
    (fun a b => key a < key b ∨ (key a = key b ∧ (b = x → a = x))) _ items h.nodup
    (by
      rintro a b c (hab | ⟨hab, hb⟩) (hbc | ⟨hbc, hc⟩)
      · exact .inl (lt_trans hab hbc)
      · exact .inl (hbc ▸ hab)
      · exact .inl (hab ▸ hbc)
      · exact .inr ⟨hab.trans hbc, fun he => hb (hc he)⟩)
    (by
      intro a b
      rcases lt_trichotomy (key a) (key b) with hlt | heq | hgt
      · exact .inl (.inl hlt)
      · by_cases ha : a = x
        · exact .inl (.inr ⟨heq, fun _ => ha⟩)
        · exact .inr (.inr ⟨heq.symm, fun he => absurd he ha⟩)
      · exact .inr (.inl hgt))
    (by
      rintro a b (hlt | ⟨heq, -⟩)
      · exact le_of_lt hlt
      · exact le_of_eq heq)
  refine ⟨sorted, ⟨hs.nodup, fun z => (hs.mem z).trans (h.mem z), hs.sorted⟩, ?_⟩
  rintro l₁ l₂ rfl
  rcases List.mem_append.mp ((hs.mem x).mpr ((h.mem x).mpr hx)) with hxl | hxl
  · exact hxl
  · rcases List.mem_cons.mp hxl with he | hxl
    · exact absurd he hne
    · rcases (List.pairwise_cons.mp (List.pairwise_append.mp hpair).2.1).1 x hxl with hlt | ⟨-, hfirst⟩
      · exact absurd hlt (not_lt.mpr hle)
      · exact absurd (hfirst rfl).symm hne

/-- The answers of some queries, made together and worked through one after another. -/
inductive Listed (key : κ → ι) (query : Nat → κ → Prop) : List Nat → List κ → Prop
  | nil : Listed key query [] []
  | cons {k : Nat} {ks : List Nat} {xs ys : List κ} (h : Enumerates key xs (query k))
      (hrest : Listed key query ks ys) : Listed key query (k :: ks) (xs ++ ys)

/-- One loop after another. Each makes its queries when it begins. -/
inductive Phases (turn : σ → κ → σ × Bool) (key : κ → ι) (query : σ → Nat → κ → Prop) :
    List (List Nat) → σ → σ × Bool → Prop
  | nil {s : σ} : Phases turn key query [] s (s, false)
  | raised {s : σ} {ks : List Nat} {rest : List (List Nat)} {items : List κ}
      (hl : Listed key (query s) ks items) (hr : (run turn s items).2 = true) :
      Phases turn key query (ks :: rest) s (run turn s items)
  | next {s : σ} {ks : List Nat} {rest : List (List Nat)} {items : List κ} {out : σ × Bool}
      (hl : Listed key (query s) ks items) (hr : (run turn s items).2 = false)
      (h : Phases turn key query rest (run turn s items).1 out) : Phases turn key query (ks :: rest) s out

/-- Turns that take up one item each: they finish it or raise, and leave the others alone. -/
structure Discipline (turn : σ → κ → σ × Bool) (key : κ → ι) (query : σ → Nat → κ → Prop) (Inv : σ → Prop)
    (Done : κ → σ → Prop) (raises : κ → Prop) : Prop where
  inv : ∀ s k x, Inv s → query s k x → Inv (turn s x).1
  outcome : ∀ s k x, Inv s → query s k x → ((turn s x).2 = true ↔ raises x)
  done : ∀ s k x, Inv s → query s k x → ¬ raises x → Done x (turn s x).1
  keeps : ∀ s k x, Inv s → query s k x → ∀ j y, y ≠ x → query s j y → query (turn s x).1 j y
  adds : ∀ s k x, Inv s → query s k x → ¬ raises x → ∀ j y, query (turn s x).1 j y → query s j y ∧ y ≠ x
  stays : ∀ s k x, Inv s → query s k x → ∀ y, Done y s → Done y (turn s x).1
  undone : ∀ s k x, Inv s → query s k x → ¬ Done x s
  rank : ∀ s j k x, query s j x → query s k x → j = k
  finite : ∀ s k, ∃ items, Enumerates key items (query s k)

namespace Discipline
variable {turn : σ → κ → σ × Bool} {key : κ → ι} {query : σ → Nat → κ → Prop} {Inv : σ → Prop} {Done : κ → σ → Prop}
  {raises : κ → Prop} {s : σ} {items : List κ}

private theorem rest_queried (h : Discipline turn key query Inv Done raises) {x : κ} {k : Nat} (hs : Inv s)
    (hx : query s k x) (hnew : x ∉ items) (hitems : ∀ y ∈ x :: items, ∃ k, query s k y) :
    ∀ y ∈ items, ∃ k, query (turn s x).1 k y := by
  intro y hy
  obtain ⟨j, hj⟩ := hitems y (List.mem_cons_of_mem x hy)
  exact ⟨j, h.keeps s k x hs hx j y (fun he => hnew (he ▸ hy)) hj⟩

/-- Whatever a loop comes to, what was finished before it is finished after it. -/
theorem run_stays (h : Discipline turn key query Inv Done raises) (hs : Inv s) (hn : items.Nodup)
    (hitems : ∀ x ∈ items, ∃ k, query s k x) :
    Inv (run turn s items).1 ∧ ∀ y, Done y s → Done y (run turn s items).1 := by
  induction items generalizing s with
  | nil => exact ⟨hs, fun _ h => h⟩
  | cons x xs ih =>
    obtain ⟨hnew, hn⟩ := List.nodup_cons.mp hn
    obtain ⟨k, hx⟩ := hitems x List.mem_cons_self
    obtain ⟨hinv, hstays⟩ := ih (h.inv s k x hs hx) hn (h.rest_queried hs hx hnew hitems)
    rw [run]
    split
    · exact ⟨h.inv s k x hs hx, h.stays s k x hs hx⟩
    · exact ⟨hinv, fun y hy => hstays y (h.stays s k x hs hx y hy)⟩

/-- A loop over items none of which raises finishes them, and they are all it takes. -/
theorem run_passes (h : Discipline turn key query Inv Done raises) (hs : Inv s) (hn : items.Nodup)
    (hitems : ∀ x ∈ items, ∃ k, query s k x) (hok : ∀ x ∈ items, ¬ raises x) :
    (run turn s items).2 = false ∧ (∀ x ∈ items, Done x (run turn s items).1) ∧
      (∀ j y, query (run turn s items).1 j y ↔ query s j y ∧ y ∉ items) := by
  induction items generalizing s with
  | nil => exact ⟨rfl, by simp, by simp [run]⟩
  | cons x xs ih =>
    obtain ⟨hnew, hn⟩ := List.nodup_cons.mp hn
    obtain ⟨k, hx⟩ := hitems x List.mem_cons_self
    have hxok := hok x List.mem_cons_self
    have hfalse : ¬ (turn s x).2 = true := fun ht => hxok ((h.outcome s k x hs hx).mp ht)
    have hinv := h.inv s k x hs hx
    have hcand := h.rest_queried hs hx hnew hitems
    obtain ⟨hraised, hdone, hleft⟩ := ih hinv hn hcand (fun y hy => hok y (List.mem_cons_of_mem x hy))
    rw [run, if_neg hfalse]
    refine ⟨hraised, ?_, ?_⟩
    · intro y hy
      rcases List.mem_cons.mp hy with hy | hy
      · rw [hy]
        exact (h.run_stays hinv hn hcand).2 x (h.done s k x hs hx hxok)
      · exact hdone y hy
    · intro j y
      rw [hleft, List.mem_cons, not_or]
      constructor
      · rintro ⟨hq, hy⟩
        obtain ⟨hold, hne⟩ := h.adds s k x hs hx hxok j y hq
        exact ⟨hold, hne, hy⟩
      · rintro ⟨hq, hne, hy⟩
        exact ⟨h.keeps s k x hs hx j y hne hq, hy⟩

/-- A loop is over with its first raising item: those before it are finished, the others wait. -/
theorem run_raises (h : Discipline turn key query Inv Done raises) {x : κ} {post : List κ} (hs : Inv s)
    (hn : (items ++ x :: post).Nodup) (hitems : ∀ y ∈ items ++ x :: post, ∃ k, query s k y)
    (hok : ∀ y ∈ items, ¬ raises y) (hx : raises x) :
    (run turn s (items ++ x :: post)).2 = true ∧ (∀ y ∈ items, Done y (run turn s (items ++ x :: post)).1) ∧
      ∀ j y, query s j y → y ∉ items → y ≠ x → query (run turn s (items ++ x :: post)).1 j y := by
  have hnew : x ∉ items := fun hmem => (List.nodup_append.mp hn).2.2 x hmem x List.mem_cons_self rfl
  have hpre := (List.nodup_append.mp hn).1
  have hcand : ∀ y ∈ items, ∃ k, query s k y := fun y hy => hitems y (List.mem_append_left _ hy)
  obtain ⟨hfalse, hdone, hleft⟩ := h.run_passes hs hpre hcand hok
  have hinv := (h.run_stays hs hpre hcand).1
  obtain ⟨k, hq⟩ := hitems x (List.mem_append_right _ List.mem_cons_self)
  have hq' := (hleft k x).mpr ⟨hq, hnew⟩
  have htrue := (h.outcome _ k x hinv hq').mpr hx
  have heq : run turn s (items ++ x :: post) = turn (run turn s items).1 x := by
    rw [run_append, if_neg (by rw [hfalse]; decide), run, if_pos htrue]
  rw [heq]
  refine ⟨htrue, fun y hy => h.stays _ k x hinv hq' y (hdone y hy), ?_⟩
  intro j y hqy hnot hne
  exact h.keeps _ k x hinv hq' j y hne ((hleft j y).mpr ⟨hqy, hnot⟩)

/-- The first raising item of a list. -/
private theorem exists_first_raising {items : List κ} (h : ∃ x ∈ items, raises x) :
    ∃ pre x post, items = pre ++ x :: post ∧ (∀ y ∈ pre, ¬ raises y) ∧ raises x := by
  induction items with
  | nil => simp at h
  | cons z zs ih =>
    by_cases hz : raises z
    · exact ⟨[], z, zs, rfl, by simp, hz⟩
    · obtain ⟨y, hy, hr⟩ := h
      have hys : y ∈ zs := by
        rcases List.mem_cons.mp hy with he | hy
        · rw [he] at hr
          exact absurd hr hz
        · exact hy
      obtain ⟨pre, x, post, heq, hok, hx⟩ := ih ⟨y, hys, hr⟩
      refine ⟨z :: pre, x, post, by rw [heq, List.cons_append], ?_, hx⟩
      intro w hw
      rcases List.mem_cons.mp hw with hw | hw
      · rw [hw]
        exact hz
      · exact hok w hw

/-- Queries made together list each item once, in the order of the queries and of the keys in each. -/
theorem listed_spec (h : Discipline turn key query Inv Done raises) {ks : List Nat}
    (hl : Listed key (query s) ks items) (hks : ks.Pairwise (· < ·)) :
    items.Nodup ∧ (∀ x, x ∈ items ↔ ∃ k ∈ ks, query s k x) ∧
      items.Pairwise fun x y => ∀ j k, query s j x → query s k y → j < k ∨ (j = k ∧ key x ≤ key y) := by
  induction hl with
  | nil => exact ⟨List.nodup_nil, by simp, .nil⟩
  | @cons k ks xs ys hx _ ih =>
    obtain ⟨hlt, hks⟩ := List.pairwise_cons.mp hks
    obtain ⟨hn, hmem, hord⟩ := ih hks
    have hlater : ∀ x ∈ xs, ∀ y ∈ ys, ∀ i j, query s i x → query s j y → i < j := by
      intro x hxm y hym i j hi hj
      obtain ⟨k', hk', hq⟩ := (hmem y).mp hym
      rw [h.rank s i k x hi ((hx.mem x).mp hxm), h.rank s j k' y hj hq]
      exact hlt k' hk'
    refine ⟨?_, ?_, ?_⟩
    · rw [List.nodup_append]
      refine ⟨hx.nodup, hn, ?_⟩
      intro x hxm y hym he
      obtain ⟨k', -, hq⟩ := (hmem y).mp hym
      have hlt := hlater x hxm y hym k k' ((hx.mem x).mp hxm) hq
      rw [h.rank s k k' y (he ▸ (hx.mem x).mp hxm) hq] at hlt
      exact Nat.lt_irrefl _ hlt
    · intro x
      rw [List.mem_append, hx.mem, hmem]
      constructor
      · rintro (hq | ⟨k', hk', hq⟩)
        · exact ⟨k, List.mem_cons_self, hq⟩
        · exact ⟨k', List.mem_cons_of_mem k hk', hq⟩
      · rintro ⟨k', hk', hq⟩
        rcases List.mem_cons.mp hk' with he | hk'
        · exact .inl (he ▸ hq)
        · exact .inr ⟨k', hk', hq⟩
    · rw [List.pairwise_append]
      refine ⟨?_, hord, fun x hxm y hym i j hi hj => .inl (hlater x hxm y hym i j hi hj)⟩
      apply List.Pairwise.imp_of_mem _ hx.sorted
      intro x y hxm hym hle i j hi hj
      exact .inr ⟨(h.rank s i k x hi ((hx.mem x).mp hxm)).trans (h.rank s j k y hj ((hx.mem y).mp hym)).symm, hle⟩

private theorem listed_queried (h : Discipline turn key query Inv Done raises) {ks : List Nat}
    (hl : Listed key (query s) ks items) (hks : ks.Pairwise (· < ·)) : ∀ x ∈ items, ∃ k, query s k x := by
  intro x hx
  obtain ⟨k, -, hq⟩ := ((h.listed_spec hl hks).2.1 x).mp hx
  exact ⟨k, hq⟩

/-- What is finished stays so to the end. -/
theorem phases_stay (h : Discipline turn key query Inv Done raises) {phases : List (List Nat)}
    {out : σ × Bool} (hp : Phases turn key query phases s out) (hsorted : phases.flatten.Pairwise (· < ·)) (hs : Inv s)
    {y : κ} (hy : Done y s) : Done y out.1 := by
  induction hp with
  | nil => exact hy
  | raised hl hr =>
    obtain ⟨hks, -, -⟩ := List.pairwise_append.mp (List.flatten_cons ▸ hsorted)
    exact (h.run_stays hs (h.listed_spec hl hks).1 (h.listed_queried hl hks)).2 y hy
  | next hl hr _ ih =>
    obtain ⟨hks, hrest, -⟩ := List.pairwise_append.mp (List.flatten_cons ▸ hsorted)
    obtain ⟨hinv, hstays⟩ := h.run_stays hs (h.listed_spec hl hks).1 (h.listed_queried hl hks)
    exact ih hrest hinv (hstays y hy)

/-- With every raising item listed after the rest, the rest are all finished. -/
private theorem reaches (h : Discipline turn key query Inv Done raises) {phases : List (List Nat)}
    {out : σ × Bool} (hp : Phases turn key query phases s out) (hsorted : phases.flatten.Pairwise (· < ·)) (hs : Inv s)
    (hall : ∀ k x, query s k x → k ∈ phases.flatten)
    (horder : ∀ j k x y, query s j x → query s k y → raises x → ¬ raises y → k < j ∨ (k = j ∧ key y < key x))
    {k : Nat} {y : κ} (hy : query s k y) (hok : ¬ raises y) : Done y out.1 := by
  induction hp with
  | nil => simpa using hall k y hy
  | @raised s ks rest items hl hr =>
    rw [List.flatten_cons] at hsorted hall
    obtain ⟨hks, -, hbetween⟩ := List.pairwise_append.mp hsorted
    obtain ⟨hn, hmem, hord⟩ := h.listed_spec hl hks
    have hcand := h.listed_queried hl hks
    have hsome : ∃ x ∈ items, raises x := by
      by_contra hno
      have hpass := (h.run_passes hs hn hcand fun x hx hrx => hno ⟨x, hx, hrx⟩).1
      rw [hpass] at hr
      cases hr
    obtain ⟨pre, x, post, rfl, hpre, hx⟩ := exists_first_raising hsome
    obtain ⟨-, hdone, -⟩ := h.run_raises hs hn hcand hpre hx
    obtain ⟨j, hj, hqx⟩ := (hmem x).mp (List.mem_append_right _ List.mem_cons_self)
    have hahead := horder j k x y hqx hy hx hok
    have hk : k ∈ ks := by
      rcases List.mem_append.mp (hall k y hy) with hk | hk
      · exact hk
      · have hlt := hbetween j hj k hk
        omega
    apply hdone
    rcases List.mem_append.mp ((hmem y).mpr ⟨k, hk, hy⟩) with hpre | hlate
    · exact hpre
    · rcases List.mem_cons.mp hlate with he | hlate
      · exact absurd (he ▸ hx) hok
      · rcases (List.pairwise_cons.mp (List.pairwise_append.mp hord).2.1).1 y hlate j k hqx hy with hlt | ⟨hjk, hle⟩
        · omega
        · rcases hahead with hlt | ⟨-, hkey⟩
          · omega
          · exact absurd hkey (not_lt.mpr hle)
  | @next s ks rest items out hl hr hnext ih =>
    rw [List.flatten_cons] at hsorted hall
    obtain ⟨hks, hrest, -⟩ := List.pairwise_append.mp hsorted
    obtain ⟨hn, hmem, -⟩ := h.listed_spec hl hks
    have hcand := h.listed_queried hl hks
    have hno : ∀ x ∈ items, ¬ raises x := by
      intro x hx hrx
      obtain ⟨pre, x, post, rfl, hpre, hx⟩ := exists_first_raising ⟨x, hx, hrx⟩
      have htrue := (h.run_raises hs hn hcand hpre hx).1
      rw [htrue] at hr
      cases hr
    obtain ⟨-, hdone, hleft⟩ := h.run_passes hs hn hcand hno
    have hinv := (h.run_stays hs hn hcand).1
    by_cases hyi : y ∈ items
    · exact h.phases_stay hnext hrest hinv (hdone y hyi)
    · apply ih hrest hinv
      · intro i x hq
        obtain ⟨hqs, hnot⟩ := (hleft i x).mp hq
        rcases List.mem_append.mp (hall i x hqs) with hi | hi
        · exact absurd ((hmem x).mpr ⟨i, hi, hqs⟩) hnot
        · exact hi
      · intro i i' x z hx hz
        exact horder i i' x z ((hleft i x).mp hx).1 ((hleft i' z).mp hz).1
      · exact (hleft k y).mpr ⟨hy, hyi⟩

private theorem exists_listed (h : Discipline turn key query Inv Done raises) (s : σ) (ks : List Nat) :
    ∃ items, Listed key (query s) ks items := by
  induction ks with
  | nil => exact ⟨[], .nil⟩
  | cons k ks ih =>
    obtain ⟨xs, hxs⟩ := h.finite s k
    obtain ⟨ys, hys⟩ := ih
    exact ⟨xs ++ ys, .cons hxs hys⟩

/-- Some listing has an item before another that neither a query nor a key puts ahead of it. -/
private theorem exists_listed_before (h : Discipline turn key query Inv Done raises) {ks : List Nat}
    (hks : ks.Pairwise (· < ·)) {j k : Nat} {x y : κ} (hx : query s j x) (hy : query s k y)
    (hjk : j < k ∨ (j = k ∧ key x ≤ key y)) (hne : x ≠ y) (hj : j ∈ ks) :
    ∃ items, Listed key (query s) ks items ∧ ∀ l₁ l₂, items = l₁ ++ y :: l₂ → x ∈ l₁ := by
  rcases hjk with hlt | ⟨hsame, hle⟩
  · obtain ⟨items, hl⟩ := h.exists_listed s ks
    obtain ⟨-, hmem, hord⟩ := h.listed_spec hl hks
    refine ⟨items, hl, ?_⟩
    rintro l₁ l₂ rfl
    rcases List.mem_append.mp ((hmem x).mpr ⟨j, hj, hx⟩) with hxl | hxl
    · exact hxl
    · rcases List.mem_cons.mp hxl with he | hxl
      · exact absurd he hne
      · have hle := (List.pairwise_cons.mp (List.pairwise_append.mp hord).2.1).1 x hxl k j hy hx
        omega
  · induction ks with
    | nil => cases hj
    | cons i ks ih =>
      obtain ⟨xs, hxs⟩ := h.finite s i
      by_cases hij : i = j
      · obtain ⟨xs', hxs', hbefore⟩ := hxs.exists_before (hij ▸ hx) hle hne
        obtain ⟨ys, hys⟩ := h.exists_listed s ks
        refine ⟨_, .cons hxs' hys, ?_⟩
        intro l₁ l₂ heq
        rcases List.append_eq_append_iff.mp heq with ⟨m, hm, -⟩ | ⟨m, hm, hrest⟩
        · rw [hm]
          exact List.mem_append_left _ ((hxs'.mem x).mpr (hij ▸ hx))
        · cases m with
          | nil =>
            rw [List.append_nil] at hm
            rw [← hm]
            exact (hxs'.mem x).mpr (hij ▸ hx)
          | cons z m =>
            rw [← (List.cons.inj hrest).1] at hm
            exact hbefore l₁ m hm
      · have hj' : j ∈ ks := (List.mem_cons.mp hj).resolve_left fun he => hij he.symm
        obtain ⟨ys, hys, hbefore⟩ := ih (List.pairwise_cons.mp hks).2 hj'
        refine ⟨xs ++ ys, .cons hxs hys, ?_⟩
        intro l₁ l₂ heq
        have hyxs : y ∉ xs := fun hmem => hij ((h.rank s i k y ((hxs.mem y).mp hmem) hy).trans hsame.symm)
        rcases List.append_eq_append_iff.mp heq with ⟨m, hm, hrest⟩ | ⟨m, hm, hrest⟩
        · rw [hm]
          exact List.mem_append_right _ (hbefore m l₂ hrest)
        · cases m with
          | nil =>
            rw [List.append_nil] at hm
            rw [List.nil_append] at hrest
            have hmem := hbefore [] l₂ hrest.symm
            cases hmem
          | cons z m =>
            have hz : z = y := (List.cons.inj hrest).1.symm
            rw [hm] at hyxs
            exact absurd (List.mem_append_right _ (hz ▸ List.mem_cons_self)) hyxs

theorem exists_phases (h : Discipline turn key query Inv Done raises) (phases : List (List Nat)) (s : σ) :
    ∃ out, Phases turn key query phases s out := by
  induction phases generalizing s with
  | nil => exact ⟨_, .nil⟩
  | cons ks rest ih =>
    obtain ⟨items, hl⟩ := h.exists_listed s ks
    cases hr : (run turn s items).2 with
    | true => exact ⟨_, .raised hl hr⟩
    | false =>
      obtain ⟨out, hout⟩ := ih (run turn s items).1
      exact ⟨out, .next hl hr hout⟩

/-- A raising item keeps some sweep from any item that neither a query nor a key puts ahead of it. -/
private theorem exists_missed (h : Discipline turn key query Inv Done raises) {phases : List (List Nat)}
    (hsorted : phases.flatten.Pairwise (· < ·)) (hs : Inv s) (hall : ∀ k x, query s k x → k ∈ phases.flatten)
    {j k : Nat} {x y : κ} (hx : query s j x) (hy : query s k y) (hjk : j < k ∨ (j = k ∧ key x ≤ key y))
    (hxr : raises x) (hok : ¬ raises y) : ∃ out, Phases turn key query phases s out ∧ ¬ Done y out.1 := by
  have hne : x ≠ y := fun he => hok (he ▸ hxr)
  have hle : j ≤ k := by omega
  induction phases generalizing s with
  | nil => simpa using hall j x hx
  | cons ks rest ih =>
    rw [List.flatten_cons] at hsorted hall
    obtain ⟨hks, hrest, hbetween⟩ := List.pairwise_append.mp hsorted
    by_cases hj : j ∈ ks
    · obtain ⟨items, hl, hbefore⟩ := h.exists_listed_before hks hx hy hjk hne hj
      obtain ⟨hn, hmem, -⟩ := h.listed_spec hl hks
      have hcand := h.listed_queried hl hks
      obtain ⟨pre, z, post, rfl, hpre, hz⟩ :=
        exists_first_raising ⟨x, (hmem x).mpr ⟨j, hj, hx⟩, hxr⟩
      obtain ⟨htrue, -, hwait⟩ := h.run_raises hs hn hcand hpre hz
      refine ⟨_, .raised hl htrue, ?_⟩
      have hypre : y ∉ pre := by
        intro hmem
        obtain ⟨l₁, l₂, rfl⟩ := List.append_of_mem hmem
        have hxl := hbefore l₁ (l₂ ++ z :: post) (by simp)
        exact hpre x (List.mem_append_left _ hxl) hxr
      have hyz : y ≠ z := fun he => hok (he ▸ hz)
      have hinv := (h.run_stays hs hn hcand).1
      exact h.undone _ k y hinv (hwait k y hy hypre hyz)
    · obtain ⟨items, hl⟩ := h.exists_listed s ks
      obtain ⟨hn, hmem, -⟩ := h.listed_spec hl hks
      have hcand := h.listed_queried hl hks
      have hj' : j ∈ rest.flatten := (List.mem_append.mp (hall j x hx)).resolve_left hj
      have hnot : ∀ i w, j ≤ i → query s i w → w ∉ items := by
        intro i w hji hq hmemw
        obtain ⟨i', hi', hq'⟩ := (hmem w).mp hmemw
        have hlt := hbetween i' hi' j hj'
        rw [h.rank s i i' w hq hq'] at hji
        omega
      have hinv := (h.run_stays hs hn hcand).1
      by_cases hsome : ∃ z ∈ items, raises z
      · obtain ⟨pre, z, post, rfl, hpre, hz⟩ := exists_first_raising hsome
        obtain ⟨htrue, -, hwait⟩ := h.run_raises hs hn hcand hpre hz
        refine ⟨_, .raised hl htrue, ?_⟩
        have hyi := hnot k y hle hy
        exact h.undone _ k y hinv (hwait k y hy (fun hm => hyi (List.mem_append_left _ hm))
          fun he => hyi (he ▸ List.mem_append_right _ List.mem_cons_self))
      · have hno : ∀ z ∈ items, ¬ raises z := fun z hz hr => hsome ⟨z, hz, hr⟩
        obtain ⟨hfalse, -, hleft⟩ := h.run_passes hs hn hcand hno
        obtain ⟨out, hout, hmiss⟩ := ih hrest hinv
          (fun i w hq => by
            obtain ⟨hqs, hnotw⟩ := (hleft i w).mp hq
            rcases List.mem_append.mp (hall i w hqs) with hi | hi
            · exact absurd ((hmem w).mpr ⟨i, hi, hqs⟩) hnotw
            · exact hi)
          ((hleft j x).mpr ⟨hx, hnot j x (Nat.le_refl j) hx⟩) ((hleft k y).mpr ⟨hy, hnot k y hle hy⟩)
        exact ⟨out, .next hl hfalse hout, hmiss⟩

/-- A sweep finishes every item that does not raise, whichever way items of one key are ordered, exactly
when each raising item belongs to a later query than all of them, or to the same one under a later key. -/
theorem reaches_iff (h : Discipline turn key query Inv Done raises) {phases : List (List Nat)}
    (hsorted : phases.flatten.Pairwise (· < ·)) (hs : Inv s) (hall : ∀ k x, query s k x → k ∈ phases.flatten) :
    (∀ out, Phases turn key query phases s out → ∀ k y, query s k y → ¬ raises y → Done y out.1) ↔
      ∀ j k x y, query s j x → query s k y → raises x → ¬ raises y → k < j ∨ (k = j ∧ key y < key x) := by
  constructor
  · intro hreach j k x y hx hy hxr hok
    by_contra hahead
    have hjk : j < k ∨ (j = k ∧ key x ≤ key y) := by
      rcases Nat.lt_trichotomy j k with hlt | rfl | hgt
      · exact .inl hlt
      · exact .inr ⟨rfl, not_lt.mp fun hlt => hahead (.inr ⟨rfl, hlt⟩)⟩
      · exact absurd (.inl hgt) hahead
    obtain ⟨out, hout, hmiss⟩ := h.exists_missed hsorted hs hall hx hy hjk hxr hok
    exact hmiss (hreach out hout k y hy hok)
  · intro horder out hout k y hy hok
    exact h.reaches hout hsorted hs hall horder hy hok

end Discipline
end Sweep
