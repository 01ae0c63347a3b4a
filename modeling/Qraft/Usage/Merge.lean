import Qraft.Usage.Pricing

/-! `record_usage`: the merge of a call's fields into the attempt's row, under the row's lock. A
`none` is an exception. -/
namespace Qraft
open UsageValue

/-- A value's amount under a key that holds money. -/
def moneyOf (key : String) (value : UsageValue) : Option Decimal :=
  if key ∈ moneyKeys then value.money else none

/-- The new value under one key in `_merge_usage`. -/
def mergeField (key : String) (current : Option UsageValue) (value : UsageValue) : Option UsageValue :=
  let current := current.getD .null
  match moneyOf key value with
  | some increment =>
    match current.money with
    | some total => (total.add increment).map moneyText
    | none => some (moneyText increment)
  | none => if value.isNumeric && current.isNumeric then UsageValue.add current value else some value

def mergeUsage (existing fields : Usage) (entry : Option Usage) : Option Usage := do
  let usage ← Dict.updateM mergeField existing fields
  match entry with
  | none => return usage
  | some entry =>
    let entries ← iterate (field usage "entries")
    return Dict.set usage "entries" (.list (entries ++ [.dict entry]))

/-- `_locked_usage_update`: what the column holds afterwards. -/
def lockedUsageUpdate (stored fields : Usage) (entry : Option Usage) : Option Usage :=
  (mergeUsage stored fields entry).map encodeFields

/-- `record_usage`, where there is no other merge. -/
def recordUsage (resolver : Option StaticTablePricing) (stored fields : Usage) : Option Usage :=
  (usageEntry resolver fields).bind (lockedUsageUpdate stored fields)

section
variable {fields u : Usage} {key : String} {v : UsageValue}

theorem get?_encodeFields (fields : Usage) (key : String) :
    Dict.get? (encodeFields fields) key = (Dict.get? fields key).map encode := by
  induction fields with
  | nil => rfl
  | cons entry rest ih =>
    obtain ⟨k, v⟩ := entry
    rw [encodeFields, Dict.get?, Dict.get?]
    split
    · rfl
    · exact ih

theorem keys_encodeFields (fields : Usage) :
    (encodeFields fields).map Prod.fst = fields.map Prod.fst := by
  induction fields with
  | nil => rfl
  | cons entry rest ih =>
    obtain ⟨k, v⟩ := entry
    rw [encodeFields, List.map_cons, List.map_cons, ih]

theorem field_encodeFields (fields : Usage) (key : String) :
    field (encodeFields fields) key = (field fields key).encode := by
  rw [field, get?_encodeFields, field]
  cases Dict.get? fields key with
  | none => rfl
  | some v => rfl

theorem field_of_get? (h : Dict.get? u key = some v) : field u key = v := by
  rw [field, h]
  rfl

theorem field_of_none (h : Dict.get? u key = none) : field u key = .null := by
  rw [field, h]
  rfl

theorem encodeList_append (xs ys : List UsageValue) :
    encodeList (xs ++ ys) = encodeList xs ++ encodeList ys := by
  induction xs with
  | nil => rfl
  | cons x xs ih => rw [List.cons_append, encodeList, encodeList, ih, List.cons_append]

mutual

/-- What was encoded stays as it is. -/
theorem encode_encode : ∀ v : UsageValue, v.encode.encode = v.encode
  | .null => rfl
  | .bool _ => rfl
  | .int _ => rfl
  | .num _ _ _ => rfl
  | .decimal _ => rfl
  | .str _ => rfl
  | .list xs => congrArg UsageValue.list (encodeList_encodeList xs)
  | .dict fields => congrArg UsageValue.dict (encodeFields_encodeFields fields)

theorem encodeList_encodeList : ∀ xs : List UsageValue, encodeList (encodeList xs) = encodeList xs
  | [] => rfl
  | x :: xs => congrArg₂ List.cons (encode_encode x) (encodeList_encodeList xs)

theorem encodeFields_encodeFields : ∀ fields : Usage, encodeFields (encodeFields fields) = encodeFields fields
  | [] => rfl
  | (key, v) :: rest =>
    congrArg₂ List.cons (congrArg (Prod.mk key) (encode_encode v)) (encodeFields_encodeFields rest)

end

theorem iterate_null : iterate .null = some [] := rfl

theorem iterate_list (xs : List UsageValue) : iterate (.list xs) = some xs := by
  cases xs with
  | nil => rfl
  | cons x xs => rfl

variable {stored merged : Usage} {entry : Option Usage}

/-- The merge: what it does to a key that is not the entries'. -/
theorem get?_lockedUsageUpdate (hn : (fields.map Prod.fst).Nodup)
    (h : lockedUsageUpdate stored fields entry = some merged)
    (hkey : entry.isSome = true → key ≠ "entries") :
    (Dict.get? fields key = none → Dict.get? merged key = (Dict.get? stored key).map encode) ∧
      ∀ v, Dict.get? fields key = some v →
        ∃ w, mergeField key (Dict.get? stored key) v = some w ∧ Dict.get? merged key = some w.encode := by
  obtain ⟨updated, hupdated, rfl⟩ := Option.map_eq_some_iff.mp h
  obtain ⟨usage, husage, hrest⟩ := Option.bind_eq_some_iff.mp hupdated
  have hsame : Dict.get? updated key = Dict.get? usage key := by
    cases entry with
    | none =>
      cases hrest
      rfl
    | some entry =>
      obtain ⟨xs, -, hset⟩ := Option.bind_eq_some_iff.mp hrest
      cases hset
      exact Dict.get?_set_ne _ _ (hkey rfl)
  obtain ⟨hout, hin⟩ := Dict.get?_updateM hn husage key
  constructor
  · intro hnone
    rw [get?_encodeFields, hsame, hout hnone]
  · intro v hv
    obtain ⟨w, hw, hget⟩ := hin v hv
    exact ⟨w, hw, by rw [get?_encodeFields, hsame, hget]; rfl⟩

/-- The entries that a call adds its own to. -/
def listedEntries (stored fields : Usage) : Option (List UsageValue) :=
  match Dict.get? fields "entries" with
  | none => iterate (field stored "entries")
  | some v => (mergeField "entries" (Dict.get? stored "entries") v).bind iterate

/-- The merge succeeds where each of its values can be made. -/
theorem exists_lockedUsageUpdate (hn : (fields.map Prod.fst).Nodup)
    (hfields : ∀ key v, Dict.get? fields key = some v →
      (mergeField key (Dict.get? stored key) v).isSome = true)
    (hentries : entry.isSome = true → (listedEntries stored fields).isSome = true) :
    ∃ merged, lockedUsageUpdate stored fields entry = some merged ∧
      ∀ e xs, entry = some e → listedEntries stored fields = some xs →
        Dict.get? merged "entries" = some (.list (encodeList (xs ++ [.dict e]))) := by
  obtain ⟨usage, husage⟩ := Dict.exists_updateM hn stored hfields
  have hlisted : iterate (field usage "entries") = listedEntries stored fields := by
    obtain ⟨hout, hin⟩ := Dict.get?_updateM hn husage "entries"
    unfold listedEntries
    cases hv : Dict.get? fields "entries" with
    | none => rw [field, hout hv, field]
    | some v =>
      obtain ⟨w, hw, hget⟩ := hin v hv
      dsimp only
      rw [field_of_get? hget, hw, Option.bind_some]
  rw [lockedUsageUpdate, mergeUsage, Option.bind_eq_bind, husage, Option.bind_some]
  cases entry with
  | none => exact ⟨_, rfl, fun e xs he => (Option.some_ne_none e he.symm).elim⟩
  | some entry =>
    obtain ⟨xs, hxs⟩ := Option.isSome_iff_exists.mp (hentries rfl)
    dsimp only
    rw [hlisted, hxs]
    refine ⟨_, rfl, fun e ys he hys => ?_⟩
    cases he
    cases hys
    rw [get?_encodeFields, Dict.get?_set_self]
    rfl

end
end Qraft
