import Qraft.Foundations.Numeric
import Qraft.Usage.Merge

/-! `_pg_usage_update`: the merge of a call's fields in one SQL statement over `jsonb`. A `none` is an
error of the statement. -/
namespace Qraft
open UsageValue

/-- A `numeric` as JSON; what is no number becomes a string. -/
def ofNumeric : Numeric → UsageValue
  | .finite n 0 => .int n
  | .finite n (scale + 1) => .num (n < 0) n.natAbs (-(scale + 1 : Nat))
  | x => .str (String.ofList x.text)

/-- A text or a key that PostgreSQL can store. -/
def textStorable (s : String) : Bool := s.toList.all fun c => c.toNat ≠ 0

mutual

/-- A value that the cast to `jsonb` takes. -/
def storable : UsageValue → Bool
  | .int n => (Numeric.ofDecimal (Decimal.ofInt n)).isSome
  | .num negative c e => (Numeric.ofDecimal (.finite negative c e)).isSome
  | .str s => textStorable s
  | .list xs => storableList xs
  | .dict fields => storableFields fields
  | .null | .bool _ | .decimal _ => true

def storableList : List UsageValue → Bool
  | [] => true
  | v :: vs => storable v && storableList vs

def storableFields : Usage → Bool
  | [] => true
  | (key, v) :: rest => textStorable key && storable v && storableFields rest

end

/-- `CASE WHEN jsonb_typeof(usage->key) = 'number' THEN (usage->>key)::numeric ELSE 0 END`. -/
def countOf : Option UsageValue → Option Numeric
  | some (.int n) => Numeric.ofDecimal (Decimal.ofInt n)
  | some (.num negative c e) => Numeric.ofDecimal (.finite negative c e)
  | _ => some Numeric.zero

/-- `CASE WHEN (usage->>key) ~ '^-?[0-9]+(\.[0-9]+)?$' THEN (usage->>key)::numeric ELSE 0 END`. -/
def amountOf : Option UsageValue → Option Numeric
  | some (.str s) => (Numeric.plainParts s.toList).elim (some Numeric.zero) Numeric.ofParts
  | stored => countOf stored

/-- A field whose value is summed in SQL. -/
def isSummed (key : String) (value : UsageValue) : Bool := (moneyOf key value).isSome || value.isNumeric

/-- The sum that the statement makes for a field. -/
def pgSum (stored : Usage) (key : String) (value : UsageValue) : Option UsageValue :=
  if !textStorable key then none
  else
    match moneyOf key value with
    | some money => do
      let total ← amountOf (Dict.get? stored key)
      let increment ← Numeric.ofDecimal money
      let sum ← total.add increment
      return .str (String.ofList sum.text)
    | none => do
      let total ← countOf (Dict.get? stored key)
      let increment ← value.numeral.bind Numeric.ofDecimal
      let sum ← total.add increment
      return ofNumeric sum

/-- `COALESCE(usage->'entries', '[]')` as the left side of `||`, which makes a list of what is none. -/
def pgEntries : Option UsageValue → List UsageValue
  | none => []
  | some (.list xs) => xs
  | some v => [v]

/-- `_pg_usage_update`; each piece reads the column as it was. -/
def pgUsageUpdate (stored fields : Usage) (entry : Option Usage) : Option Usage := do
  let sums ← Dict.mapValuesM (pgSum stored) (fields.filter fun item => isSummed item.1 item.2)
  let plain := encodeFields (fields.filter fun item => !isSummed item.1 item.2)
  let listed := entry.toList.map fun e => UsageValue.dict (encodeFields e)
  let entries : Usage := entry.toList.map fun _ =>
    ("entries", .list (pgEntries (Dict.get? stored "entries") ++ listed))
  if storableFields plain && storableList listed then
    some (Dict.update (Dict.update (Dict.update stored sums) plain) entries)
  else none

/-- `record_usage` over PostgreSQL. -/
def recordUsagePg (resolver : Option StaticTablePricing) (stored fields : Usage) : Option Usage :=
  (usageEntry resolver fields).bind (pgUsageUpdate stored fields)

def pgField (stored : Usage) (key : String) (value : UsageValue) : Option UsageValue :=
  if isSummed key value then pgSum stored key value else some value.encode

section
variable {stored fields merged : Usage} {entry : Option Usage} {key : String}

private theorem nodup_encodeFields (hn : (fields.map Prod.fst).Nodup) :
    ((encodeFields fields).map Prod.fst).Nodup := by
  rw [keys_encodeFields]
  exact hn

/-- The pieces of the statement, and what they make of the column. -/
private theorem pgUsageUpdate_pieces (hn : (fields.map Prod.fst).Nodup)
    (h : pgUsageUpdate stored fields entry = some merged) :
    ∃ sums, Dict.mapValuesM (pgSum stored) (fields.filter fun item => isSummed item.1 item.2) = some sums ∧
      ∀ key, Dict.get? merged key =
        (Dict.get? (entry.toList.map fun e => ("entries", UsageValue.list
          (pgEntries (Dict.get? stored "entries") ++ [.dict (encodeFields e)]))) key).or
        ((((Dict.get? fields key).filter fun v => !isSummed key v).map encode).or
          ((Dict.get? sums key).or (Dict.get? stored key))) := by
  obtain ⟨sums, hsums, h⟩ := Option.bind_eq_some_iff.mp h
  refine ⟨sums, hsums, fun key => ?_⟩
  have hsumsNodup : (sums.map Prod.fst).Nodup := by
    rw [Dict.keys_mapValuesM hsums]
    exact Dict.nodup_filter hn _
  have hplainNodup := nodup_encodeFields (Dict.nodup_filter hn fun item => !isSummed item.1 item.2)
  have hplain : Dict.get? (encodeFields (fields.filter fun item => !isSummed item.1 item.2)) key =
      ((Dict.get? fields key).filter fun v => !isSummed key v).map encode := by
    rw [get?_encodeFields, Dict.get?_filter hn]
  dsimp only at h
  split at h
  · cases h
    cases entry with
    | none =>
      rw [Dict.get?_update (by simp), Dict.get?_update hplainNodup, Dict.get?_update hsumsNodup, hplain]
      rfl
    | some e =>
      rw [Dict.get?_update (by simp), Dict.get?_update hplainNodup, Dict.get?_update hsumsNodup, hplain]
      rfl
  · cases h

/-- The statement: what it does to a key that is not the entries'. -/
theorem get?_pgUsageUpdate (hn : (fields.map Prod.fst).Nodup)
    (h : pgUsageUpdate stored fields entry = some merged) (hkey : entry.isSome = true → key ≠ "entries") :
    (Dict.get? fields key = none → Dict.get? merged key = Dict.get? stored key) ∧
      ∀ v, Dict.get? fields key = some v →
        ∃ w, pgField stored key v = some w ∧ Dict.get? merged key = some w := by
  obtain ⟨sums, hsums, hpieces⟩ := pgUsageUpdate_pieces hn h
  obtain ⟨hnone, hsome⟩ := Dict.get?_mapValuesM hsums key
  rw [Dict.get?_filter hn] at hnone hsome
  have hentries : Dict.get? (entry.toList.map fun e => ("entries", UsageValue.list
      (pgEntries (Dict.get? stored "entries") ++ [.dict (encodeFields e)]))) key = none := by
    cases entry with
    | none => rfl
    | some e =>
      rw [Option.toList_some, List.map_singleton, Dict.get?, if_neg (hkey rfl).symm]
      rfl
  rw [hpieces, hentries, Option.none_or]
  constructor
  · intro hv
    rw [hv] at hnone ⊢
    rw [hnone rfl]
    rfl
  · intro v hv
    rw [hv] at hnone hsome ⊢
    unfold pgField
    cases hsummed : isSummed key v with
    | true =>
      obtain ⟨w, hw, hget⟩ := hsome v (by rw [Option.filter_some, if_pos hsummed])
      refine ⟨w, hw, ?_⟩
      rw [Option.filter_some, hsummed, hget]
      rfl
    | false =>
      refine ⟨v.encode, rfl, ?_⟩
      rw [Option.filter_some, hsummed]
      rfl

theorem get?_pgUsageUpdate_entries {e : Usage} (hn : (fields.map Prod.fst).Nodup)
    (h : pgUsageUpdate stored fields (some e) = some merged) : Dict.get? merged "entries" =
      some (.list (pgEntries (Dict.get? stored "entries") ++ [.dict (encodeFields e)])) := by
  obtain ⟨sums, -, hpieces⟩ := pgUsageUpdate_pieces hn h
  rw [hpieces]
  rfl

/-- The statement succeeds where each of its pieces does. -/
theorem exists_pgUsageUpdate (hfields : ∀ item ∈ fields, isSummed item.1 item.2 = true →
      (pgSum stored item.1 item.2).isSome = true)
    (hplain : storableFields (encodeFields (fields.filter fun item => !isSummed item.1 item.2)) = true)
    (hentry : ∀ e, entry = some e → storable (.dict (encodeFields e)) = true) :
    ∃ merged, pgUsageUpdate stored fields entry = some merged := by
  have hsums : ∀ item ∈ fields.filter fun item => isSummed item.1 item.2,
      (pgSum stored item.1 item.2).isSome = true := by
    intro item hin
    obtain ⟨hin, hsummed⟩ := List.mem_filter.mp hin
    exact hfields item hin hsummed
  obtain ⟨sums, hsums⟩ := Dict.exists_mapValuesM hsums
  have hlisted : storableList (entry.toList.map fun e => UsageValue.dict (encodeFields e)) = true := by
    cases entry with
    | none => rfl
    | some e =>
      rw [Option.toList_some, List.map_singleton, storableList, hentry e rfl]
      rfl
  rw [pgUsageUpdate, hsums, Option.bind_eq_bind, Option.bind_some]
  dsimp only
  rw [hplain, hlisted]
  exact ⟨_, rfl⟩

end
end Qraft
