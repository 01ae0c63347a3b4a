import Mathlib.Data.List.Basic
import Qraft.Foundations.Dict

/-! Dictionaries read under a normal form of their keys: several spellings of one key, of which the
last in the order of the entries is the one that counts. -/
namespace Dict
variable {κ μ ν : Type*} [DecidableEq κ] [DecidableEq μ] (f : κ → μ) {d e : List (κ × ν)} {k : κ} {m : μ} {v : ν}

/-- `{f(k): v for k, v in d.items()}`. -/
def rekey (d : List (κ × ν)) : List (μ × ν) := d.foldl (fun out item => set out (f item.1) item.2) []

/-- The entries under the spellings of one key. -/
def spelled (m : μ) (d : List (κ × ν)) : List (κ × ν) := d.filter fun item => f item.1 = m

/-- No key has two spellings. -/
def Unambiguous (d : List (κ × ν)) : Prop := (d.map fun item => f item.1).Nodup

omit [DecidableEq κ] in
theorem spelled_cons_self {k : κ} (h : f k = m) (v : ν) (rest : List (κ × ν)) :
    spelled f m ((k, v) :: rest) = (k, v) :: spelled f m rest :=
  List.filter_cons_of_pos (decide_eq_true h)

omit [DecidableEq κ] in
theorem spelled_cons_ne {k : κ} (h : f k ≠ m) (v : ν) (rest : List (κ × ν)) :
    spelled f m ((k, v) :: rest) = spelled f m rest :=
  List.filter_cons_of_neg (by simpa using h)

omit [DecidableEq κ] in
/-- The last spelling is read. -/
theorem get?_rekey (d : List (κ × ν)) (m : μ) :
    get? (rekey f d) m = (spelled f m d).getLast?.map Prod.snd := by
  have hfold (out : List (μ × ν)) :
      get? (d.foldl (fun out item => set out (f item.1) item.2) out) m =
        ((spelled f m d).getLast?.map Prod.snd).or (get? out m) := by
    induction d generalizing out with
    | nil => rfl
    | cons item rest ih =>
      rw [List.foldl_cons, ih, get?_set]
      by_cases hm : f item.1 = m
      · rw [spelled_cons_self f hm, if_pos hm.symm, List.getLast?_cons]
        cases (spelled f m rest).getLast? with
        | none => rfl
        | some last => rfl
      · rw [spelled_cons_ne f hm, if_neg (Ne.symm hm)]
  rw [rekey, hfold]
  exact Option.or_none

omit [DecidableEq κ] in
theorem spelled_eq_nil : spelled f m d = [] ↔ m ∉ d.map fun item => f item.1 := by
  simp [spelled, List.filter_eq_nil_iff]

omit [DecidableEq κ] in
theorem spelled_length (h : Unambiguous f d) (m : μ) : (spelled f m d).length ≤ 1 := by
  induction d with
  | nil => exact Nat.zero_le 1
  | cons item rest ih =>
    rw [Unambiguous, List.map_cons, List.nodup_cons] at h
    by_cases hm : f item.1 = m
    · have hnil : spelled f m rest = [] := (spelled_eq_nil f).mpr (hm ▸ h.1)
      rw [spelled_cons_self f hm, hnil]
      exact Nat.le_refl 1
    · rw [spelled_cons_ne f hm]
      exact ih h.2

omit [DecidableEq μ] in
theorem set_cons (item : κ × ν) (rest : List (κ × ν)) (k : κ) (v : ν) :
    set (item :: rest) k v = if item.1 = k then (item.1, v) :: rest else item :: set rest k v := rfl

theorem spelled_set_ne (h : f k ≠ m) (d : List (κ × ν)) (v : ν) : spelled f m (set d k v) = spelled f m d := by
  induction d with
  | nil => exact spelled_cons_ne f h v []
  | cons item rest ih =>
    rw [set_cons]
    split
    · rename_i hk
      have hm : f item.1 ≠ m := by
        rw [hk]
        exact h
      rw [spelled_cons_ne f hm, spelled_cons_ne f hm]
    · by_cases hm : f item.1 = m
      · rw [spelled_cons_self f hm, spelled_cons_self f hm, ih]
      · rw [spelled_cons_ne f hm, spelled_cons_ne f hm, ih]

theorem spelled_set_self (h : f k = m) (d : List (κ × ν)) (v : ν) :
    spelled f m (set d k v) = set (spelled f m d) k v := by
  induction d with
  | nil => exact spelled_cons_self f h v []
  | cons item rest ih =>
    rw [set_cons]
    by_cases hk : item.1 = k
    · have hm : f item.1 = m := by rw [hk, h]
      rw [if_pos hk, spelled_cons_self f hm, spelled_cons_self f hm, set_cons, if_pos hk]
    · rw [if_neg hk]
      by_cases hm : f item.1 = m
      · rw [spelled_cons_self f hm, spelled_cons_self f hm, ih, set_cons, if_neg hk]
      · rw [spelled_cons_ne f hm, spelled_cons_ne f hm, ih]

/-- Where a key has at most one spelling, a write gives it its new value under any other. -/
theorem getLast?_set (h : d.length ≤ 1) (k : κ) (v : ν) : (set d k v).getLast? = some (k, v) := by
  match d, h with
  | [], _ => rfl
  | [item], _ =>
    unfold set
    split
    · rename_i hk
      rw [hk]
      rfl
    · rfl

theorem get?_rekey_set (hd : (spelled f (f k) d).length ≤ 1) (v : ν) (m : μ) :
    get? (rekey f (set d k v)) m = if f k = m then some v else get? (rekey f d) m := by
  rw [get?_rekey, get?_rekey]
  split
  · rename_i hm
    rw [spelled_set_self f hm, getLast?_set (hm ▸ hd)]
    rfl
  · rename_i hm
    rw [spelled_set_ne f hm]

/-- An update wins over what it updates, however either of them spells a key. -/
theorem get?_rekey_update (hd : ∀ m, (spelled f m d).length ≤ 1) (he : Unambiguous f e) (m : μ) :
    get? (rekey f (update d e)) m = (get? (rekey f e) m).or (get? (rekey f d) m) := by
  have hfix (hd : m ∈ (e.map fun item => f item.1) → (spelled f m d).length ≤ 1) :
      get? (rekey f (update d e)) m = (get? (rekey f e) m).or (get? (rekey f d) m) := by
    clear * - hd he
    induction e generalizing d with
    | nil => rfl
    | cons item rest ih =>
      rw [Unambiguous, List.map_cons, List.nodup_cons] at he
      rw [update, List.foldl_cons, ← update, get?_rekey f (item :: rest)]
      by_cases hm : f item.1 = m
      · have hnil : spelled f m rest = [] := (spelled_eq_nil f).mpr (hm ▸ he.1)
        have hone : (spelled f (f item.1) d).length ≤ 1 := by
          rw [hm]
          exact hd (by rw [List.map_cons, hm]; exact List.mem_cons_self)
        rw [ih he.2 (fun hin => absurd (hm ▸ hin) he.1), get?_rekey_set f hone, if_pos hm, get?_rekey, hnil,
          spelled_cons_self f hm, hnil]
        rfl
      · have hsp : spelled f m (set d item.1 item.2) = spelled f m d := spelled_set_ne f hm d item.2
        have hone : m ∈ (rest.map fun item => f item.1) → (spelled f m (set d item.1 item.2)).length ≤ 1 := by
          intro hin
          rw [hsp]
          exact hd (List.mem_cons_of_mem _ hin)
        rw [ih he.2 hone, spelled_cons_ne f hm, get?_rekey, get?_rekey, get?_rekey, hsp]
  exact hfix fun _ => hd m

end Dict
