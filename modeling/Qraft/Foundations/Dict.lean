import Mathlib.Data.List.Nodup
import Mathlib.Logic.Basic

/-! Dictionaries as lists of entries, read under the first key that matches, and the two writes they
have: one entry, or all of another dictionary. -/
namespace Dict
variable {κ ν : Type*} [DecidableEq κ] {d e : List (κ × ν)} {k k' : κ} {v w : ν}

def get? : List (κ × ν) → κ → Option ν
  | [], _ => none
  | (k', v) :: rest, k => if k' = k then some v else get? rest k

/-- `d[k] = v`: in the place of the old entry, or at the end. -/
def set : List (κ × ν) → κ → ν → List (κ × ν)
  | [], k, v => [(k, v)]
  | (k', v') :: rest, k, v => if k' = k then (k', v) :: rest else (k', v') :: set rest k v

/-- `{**d, **e}`. -/
def update (d e : List (κ × ν)) : List (κ × ν) := e.foldl (fun d kv => set d kv.1 kv.2) d

theorem get?_set_self (d : List (κ × ν)) (k : κ) (v : ν) : get? (set d k v) k = some v := by
  induction d with
  | nil => simp [set, get?]
  | cons entry rest ih =>
    unfold set
    split
    · rename_i h
      simp [get?, h]
    · rename_i h
      simp [get?, h, ih]

theorem get?_set_ne (d : List (κ × ν)) (v : ν) (h : k' ≠ k) : get? (set d k v) k' = get? d k' := by
  induction d with
  | nil => simp [set, get?, h.symm]
  | cons entry rest ih =>
    unfold set
    split
    · rename_i hk
      simp [get?, hk, h.symm]
    · by_cases hk : entry.1 = k'
      · simp [get?, hk]
      · simp [get?, hk, ih]

theorem get?_set (d : List (κ × ν)) (k k' : κ) (v : ν) :
    get? (set d k v) k' = if k' = k then some v else get? d k' := by
  split
  · rename_i h
    rw [h, get?_set_self]
  · rename_i h
    exact get?_set_ne d v h

theorem get?_eq_none : get? d k = none ↔ k ∉ d.map Prod.fst := by
  induction d with
  | nil => simp [get?]
  | cons entry rest ih =>
    rw [List.map_cons, List.mem_cons, not_or, get?]
    split
    · rename_i h
      simp [h]
    · rename_i h
      rw [ih]
      exact ⟨fun hn => ⟨fun he => h he.symm, hn⟩, fun hn => hn.2⟩

theorem mem_of_get? (h : get? d k = some v) : (k, v) ∈ d := by
  induction d with
  | nil => cases h
  | cons entry rest ih =>
    rw [get?] at h
    split at h
    · rename_i hk
      cases h
      exact List.mem_cons.mpr (.inl (by rw [← hk]))
    · exact List.mem_cons_of_mem _ (ih h)

theorem get?_of_mem (hn : (d.map Prod.fst).Nodup) (h : (k, v) ∈ d) : get? d k = some v := by
  induction d with
  | nil => cases h
  | cons entry rest ih =>
    rw [List.map_cons, List.nodup_cons] at hn
    rw [get?]
    rcases List.mem_cons.mp h with he | h
    · rw [← he]
      simp
    · have hne : entry.1 ≠ k := by
        rintro rfl
        exact hn.1 (List.mem_map.mpr ⟨_, h, rfl⟩)
      rw [if_neg hne, ih hn.2 h]

theorem keys_set (d : List (κ × ν)) (k : κ) (v : ν) :
    (set d k v).map Prod.fst = if k ∈ d.map Prod.fst then d.map Prod.fst else d.map Prod.fst ++ [k] := by
  induction d with
  | nil => rfl
  | cons entry rest ih =>
    unfold set
    by_cases h : entry.1 = k
    · simp [h]
    · have hne : k ≠ entry.1 := fun he => h he.symm
      rw [if_neg h, List.map_cons, List.map_cons, ih]
      simp only [List.mem_cons, hne, false_or]
      split
      · rfl
      · rfl

theorem nodup_set (hn : (d.map Prod.fst).Nodup) (k : κ) (v : ν) : ((set d k v).map Prod.fst).Nodup := by
  rw [keys_set]
  split
  · exact hn
  · rename_i hnew
    rw [List.nodup_append]
    refine ⟨hn, List.nodup_singleton _, ?_⟩
    intro a ha b hb he
    rw [List.mem_singleton.mp hb] at he
    exact hnew (he ▸ ha)

theorem nodup_update (hn : (d.map Prod.fst).Nodup) (e : List (κ × ν)) :
    ((update d e).map Prod.fst).Nodup := by
  unfold update
  induction e generalizing d with
  | nil => exact hn
  | cons entry rest ih => exact ih (nodup_set hn _ _)

/-- What is read after an update: the new entry, where there is one. -/
theorem get?_update (hn : (e.map Prod.fst).Nodup) (d : List (κ × ν)) (k : κ) :
    get? (update d e) k = (get? e k).or (get? d k) := by
  induction e generalizing d with
  | nil => rfl
  | cons entry rest ih =>
    rw [List.map_cons, List.nodup_cons] at hn
    have hrest := ih hn.2 (set d entry.1 entry.2)
    rw [update, List.foldl_cons, ← update, hrest, get?_set, get?]
    by_cases hk : entry.1 = k
    · have hnone : get? rest k = none := get?_eq_none.mpr (hk ▸ hn.1)
      simp [hk, hnone]
    · rw [if_neg hk, if_neg fun he : k = entry.1 => hk he.symm]

/-- Updates that do not give a key leave it. -/
theorem get?_foldl_update {es : List (List (κ × ν))} (hn : ∀ e ∈ es, (e.map Prod.fst).Nodup)
    (h : ∀ e ∈ es, get? e k = none) (d : List (κ × ν)) : get? (es.foldl update d) k = get? d k := by
  induction es generalizing d with
  | nil => rfl
  | cons e es ih =>
    have hrest := ih (fun e he => hn e (List.mem_cons_of_mem _ he))
      (fun e he => h e (List.mem_cons_of_mem _ he)) (update d e)
    rw [List.foldl_cons, hrest, get?_update (hn e List.mem_cons_self), h e List.mem_cons_self,
      Option.none_or]

/-- An update whose new values depend on the old ones, and that may fail. -/
def updateM (f : κ → Option ν → ν → Option ν) (d e : List (κ × ν)) : Option (List (κ × ν)) :=
  e.foldlM (fun d kv => (f kv.1 (get? d kv.1) kv.2).map (set d kv.1)) d

/-- What is read after such an update. -/
theorem get?_updateM {f : κ → Option ν → ν → Option ν} (hn : (e.map Prod.fst).Nodup)
    {d d' : List (κ × ν)} (h : updateM f d e = some d') (k : κ) :
    (get? e k = none → get? d' k = get? d k) ∧
      ∀ v, get? e k = some v → ∃ w, f k (get? d k) v = some w ∧ get? d' k = some w := by
  induction e generalizing d with
  | nil =>
    cases h
    exact ⟨fun _ => rfl, fun v hv => (Option.some_ne_none v hv.symm).elim⟩
  | cons entry rest ih =>
    rw [List.map_cons, List.nodup_cons] at hn
    rw [updateM, List.foldlM_cons] at h
    obtain ⟨d₁, hset, hrest⟩ := Option.bind_eq_some_iff.mp h
    obtain ⟨w, hw, rfl⟩ := Option.map_eq_some_iff.mp hset
    obtain ⟨hout, hin⟩ := ih hn.2 hrest
    rw [get?]
    by_cases hk : entry.1 = k
    · subst hk
      have hnone : get? rest entry.1 = none := get?_eq_none.mpr hn.1
      rw [if_pos rfl]
      refine ⟨(fun h => by cases h), fun v hv => ?_⟩
      cases hv
      exact ⟨w, hw, (hout hnone).trans (get?_set_self _ _ _)⟩
    · rw [if_neg hk]
      rw [get?_set_ne _ _ fun he => hk he.symm] at hout hin
      exact ⟨hout, hin⟩

def mapValuesM (f : κ → ν → Option ν) (d : List (κ × ν)) : Option (List (κ × ν)) :=
  d.mapM fun item => (f item.1 item.2).map fun w => (item.1, w)

omit [DecidableEq κ] in
theorem keys_mapValuesM {f : κ → ν → Option ν} (h : mapValuesM f d = some e) :
    e.map Prod.fst = d.map Prod.fst := by
  induction d generalizing e with
  | nil =>
    cases h
    rfl
  | cons item rest ih =>
    rw [mapValuesM, List.mapM_cons] at h
    obtain ⟨entry, hentry, h⟩ := Option.bind_eq_some_iff.mp h
    obtain ⟨others, hothers, h⟩ := Option.bind_eq_some_iff.mp h
    obtain ⟨w, -, rfl⟩ := Option.map_eq_some_iff.mp hentry
    cases h
    rw [List.map_cons, List.map_cons, ih hothers]

theorem get?_mapValuesM {f : κ → ν → Option ν} (h : mapValuesM f d = some e) (k : κ) :
    (get? d k = none → get? e k = none) ∧
      ∀ v, get? d k = some v → ∃ w, f k v = some w ∧ get? e k = some w := by
  induction d generalizing e with
  | nil =>
    cases h
    exact ⟨fun _ => rfl, fun v hv => (Option.some_ne_none v hv.symm).elim⟩
  | cons item rest ih =>
    rw [mapValuesM, List.mapM_cons] at h
    obtain ⟨entry, hentry, h⟩ := Option.bind_eq_some_iff.mp h
    obtain ⟨others, hothers, h⟩ := Option.bind_eq_some_iff.mp h
    obtain ⟨w, hw, rfl⟩ := Option.map_eq_some_iff.mp hentry
    cases h
    rw [get?, get?]
    by_cases hk : item.1 = k
    · rw [if_pos hk, if_pos hk]
      refine ⟨fun hnone => (Option.some_ne_none _ hnone).elim, fun v hv => ?_⟩
      cases hv
      exact ⟨w, hk ▸ hw, rfl⟩
    · rw [if_neg hk, if_neg hk]
      exact ih hothers

omit [DecidableEq κ] in
theorem exists_mapValuesM {f : κ → ν → Option ν} (h : ∀ item ∈ d, (f item.1 item.2).isSome = true) :
    ∃ e, mapValuesM f d = some e := by
  induction d with
  | nil => exact ⟨[], rfl⟩
  | cons item rest ih =>
    obtain ⟨w, hw⟩ := Option.isSome_iff_exists.mp (h item List.mem_cons_self)
    obtain ⟨e, he⟩ := ih fun entry hin => h entry (List.mem_cons_of_mem _ hin)
    rw [mapValuesM] at he
    refine ⟨(item.1, w) :: e, ?_⟩
    rw [mapValuesM, List.mapM_cons, hw, he]
    rfl

/-- Such an update succeeds where each of its values does. -/
theorem exists_updateM {f : κ → Option ν → ν → Option ν} (hn : (e.map Prod.fst).Nodup) (d : List (κ × ν))
    (h : ∀ k v, get? e k = some v → (f k (get? d k) v).isSome = true) :
    ∃ d', updateM f d e = some d' := by
  induction e generalizing d with
  | nil => exact ⟨d, rfl⟩
  | cons entry rest ih =>
    rw [List.map_cons, List.nodup_cons] at hn
    obtain ⟨w, hw⟩ := Option.isSome_iff_exists.mp (h entry.1 entry.2 (by simp [get?]))
    have hrest : ∀ k v, get? rest k = some v → (f k (get? (set d entry.1 w) k) v).isSome = true := by
      intro k v hv
      have hne : entry.1 ≠ k := by
        rintro rfl
        rw [get?_eq_none.mpr hn.1] at hv
        cases hv
      rw [get?_set_ne _ _ hne.symm]
      exact h k v (by rw [get?, if_neg hne, hv])
    obtain ⟨d', hd'⟩ := ih hn.2 (set d entry.1 w) hrest
    refine ⟨d', ?_⟩
    rw [updateM, List.foldlM_cons, hw]
    exact hd'

theorem nodup_updateM {f : κ → Option ν → ν → Option ν} {d d' : List (κ × ν)}
    (hn : (d.map Prod.fst).Nodup) (h : updateM f d e = some d') : (d'.map Prod.fst).Nodup := by
  induction e generalizing d with
  | nil =>
    cases h
    exact hn
  | cons entry rest ih =>
    rw [updateM, List.foldlM_cons] at h
    obtain ⟨d₁, hset, hrest⟩ := Option.bind_eq_some_iff.mp h
    obtain ⟨w, -, rfl⟩ := Option.map_eq_some_iff.mp hset
    exact ih (nodup_set hn _ _) hrest

/-- Entries that are dropped are no longer read. -/
theorem get?_filter (hn : (d.map Prod.fst).Nodup) (p : κ × ν → Bool) (k : κ) :
    get? (d.filter p) k = (get? d k).filter fun v => p (k, v) := by
  induction d with
  | nil => rfl
  | cons entry rest ih =>
    rw [List.map_cons, List.nodup_cons] at hn
    have hrest := ih hn.2
    rw [get?]
    by_cases hk : entry.1 = k
    · subst hk
      have hnone : get? rest entry.1 = none := get?_eq_none.mpr hn.1
      cases hp : p entry with
      | false =>
        rw [List.filter_cons_of_neg (by simp [hp]), hrest, hnone]
        simp [Option.filter, hp]
      | true =>
        rw [List.filter_cons_of_pos hp, get?]
        simp [Option.filter, hp]
    · cases hp : p entry with
      | false => rw [List.filter_cons_of_neg (by simp [hp]), hrest, if_neg hk]
      | true => rw [List.filter_cons_of_pos hp, get?, if_neg hk, if_neg hk, hrest]

omit [DecidableEq κ] in
theorem nodup_filter (hn : (d.map Prod.fst).Nodup) (p : κ × ν → Bool) :
    ((d.filter p).map Prod.fst).Nodup := hn.sublist (List.filter_sublist.map _)

end Dict
