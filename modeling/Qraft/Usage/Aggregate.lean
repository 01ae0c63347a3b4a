import Qraft.Usage.Merge

/-! The sums of usage over attempts, tasks and workflows. A `none` is an exception. -/
namespace Qraft
open UsageValue

/-- The new total under one key in `_sum_usage`. -/
def sumField (key : String) (current : Option UsageValue) (value : UsageValue) : Option UsageValue :=
  match moneyOf key value with
  | some increment =>
    let total := ((current.getD .null).money.filter fun d => (UsageValue.decimal d).truthy).getD
      (Decimal.ofInt 0)
    (total.add increment).map moneyText
  | none => if value.isNumeric then UsageValue.add (current.getD (.int 0)) value else some value

/-- One item in the loop of `_sum_usage`, over the totals and the entries so far. -/
def sumStep (s : Usage × List UsageValue) (item : String × UsageValue) : Option (Usage × List UsageValue) :=
  if item.1 = "entries" then (iterate item.2).map fun xs => (s.1, s.2 ++ xs)
  else (sumField item.1 (Dict.get? s.1 item.1) item.2).map fun total => (Dict.set s.1 item.1 total, s.2)

namespace Coverage

def text : Coverage → String
  | .complete => "complete"
  | .partialOnly => "partial"
  | .none => "none"

end Coverage

namespace CostSummary

def asDict (s : CostSummary) : Usage :=
  [("amount", moneyText s.amount), ("currency", s.currency), ("coverage", .str s.coverage.text),
    ("estimated", .bool s.estimated)]

end CostSummary

def costSummary (resolver : Option StaticTablePricing) (aggregated : Usage) : Option (Option Usage) :=
  if !((field aggregated "entries").or (field aggregated "cost")).truthy then some none
  else (usageCost resolver aggregated).map fun s => some s.asDict

/-- The loops of `_sum_usage`. -/
def sumItems (usages : List Usage) : Option (Usage × List UsageValue) :=
  usages.foldlM (fun s usage => usage.foldlM sumStep s) ([], [])

/-- The totals with their entries, before the cost summary. -/
def withEntries (totals : Usage) (entries : List UsageValue) : Usage :=
  if entries.isEmpty then totals else Dict.set totals "entries" (.list entries)

def sumUsage (resolver : Option StaticTablePricing) (usages : List Usage) : Option Usage := do
  let (totals, entries) ← sumItems usages
  let aggregated := withEntries totals entries
  match ← costSummary resolver aggregated with
  | none => return aggregated
  | some summary => return Dict.set aggregated "cost_summary" (.dict summary)

/-- The `usage` column of an attempt that made these calls. -/
def attemptUsage (resolver : Option StaticTablePricing) (calls : List Usage) : Option Usage :=
  calls.foldlM (recordUsage resolver) []

def aggregateUsage (resolver : Option StaticTablePricing) (attempts : List (List Usage)) : Option Usage :=
  (attempts.mapM (attemptUsage resolver)).bind (sumUsage resolver)

/-- `aggregate_workflow_usage` of a workflow with these tasks. -/
def aggregateWorkflowUsage (resolver : Option StaticTablePricing) (tasks : List (List (List Usage))) :
    Option Usage :=
  (tasks.mapM (aggregateUsage resolver)).bind (sumUsage resolver)

/-- The items of a usage object apart from its entries. -/
def counters (usage : Usage) : Usage := usage.filter fun item => item.1 ≠ "entries"

section
variable {resolver : Option StaticTablePricing} {usage : Usage} {usages : List Usage}

theorem counters_nodup (hn : (usage.map Prod.fst).Nodup) : ((counters usage).map Prod.fst).Nodup :=
  Dict.nodup_filter hn _

theorem get?_counters (hn : (usage.map Prod.fst).Nodup) {key : String} (hkey : key ≠ "entries") :
    Dict.get? (counters usage) key = Dict.get? usage key := by
  rw [counters, Dict.get?_filter hn]
  cases Dict.get? usage key with
  | none => rfl
  | some v => exact if_pos (decide_eq_true hkey)

/-- One usage object in the loop: its entries go to the entries, its other items to the totals. -/
theorem foldlM_sumStep (hn : (usage.map Prod.fst).Nodup) (s : Usage × List UsageValue) :
    usage.foldlM sumStep s = (iterate (field usage "entries")).bind fun xs =>
      (Dict.updateM sumField s.1 (counters usage)).map fun totals => (totals, s.2 ++ xs) := by
  induction usage generalizing s with
  | nil =>
    obtain ⟨totals, entries⟩ := s
    change some (totals, entries) = some (totals, entries ++ [])
    rw [List.append_nil]
  | cons item rest ih =>
    obtain ⟨key, value⟩ := item
    rw [List.map_cons, List.nodup_cons] at hn
    have hrest := ih hn.2
    rw [List.foldlM_cons]
    by_cases hkey : key = "entries"
    · subst hkey
      have hfield : field rest "entries" = .null := field_of_none (Dict.get?_eq_none.mpr hn.1)
      have hhead : field (("entries", value) :: rest) "entries" = value := rfl
      have hcounters : counters (("entries", value) :: rest) = counters rest := rfl
      rw [hhead, hcounters]
      cases hvalue : iterate value with
      | none =>
        have hstep : sumStep s ("entries", value) = none := by
          rw [sumStep, if_pos rfl, hvalue]
          rfl
        rw [hstep]
        rfl
      | some xs =>
        have hstep : sumStep s ("entries", value) = some (s.1, s.2 ++ xs) := by
          rw [sumStep, if_pos rfl, hvalue]
          rfl
        rw [hstep, Option.bind_eq_bind, Option.bind_some, hrest, hfield, iterate_null, Option.bind_some,
          Option.bind_some]
        simp only [List.append_nil]
    · have hfield : field ((key, value) :: rest) "entries" = field rest "entries" := by
        rw [field, Dict.get?, if_neg hkey, field]
      have hcounters : counters ((key, value) :: rest) = (key, value) :: counters rest :=
        List.filter_cons_of_pos (decide_eq_true hkey)
      rw [hfield, hcounters, Dict.updateM, List.foldlM_cons]
      cases hvalue : sumField key (Dict.get? s.1 key) value with
      | none =>
        have hstep : sumStep s (key, value) = none := by
          rw [sumStep, if_neg hkey, hvalue]
          rfl
        rw [hstep]
        cases iterate (field rest "entries") <;> rfl
      | some total =>
        have hstep : sumStep s (key, value) = some (Dict.set s.1 key total, s.2) := by
          rw [sumStep, if_neg hkey, hvalue]
          rfl
        rw [hstep, Option.bind_eq_bind, Option.bind_some, hrest]
        rfl

def allEntries : List Usage → Option (List UsageValue)
  | [] => some []
  | usage :: usages => do
    let xs ← iterate (field usage "entries")
    let rest ← allEntries usages
    return xs ++ rest

def allTotals (usages : List Usage) : Option Usage :=
  usages.foldlM (fun totals usage => Dict.updateM sumField totals (counters usage)) []

private theorem foldlM_sumItems (hn : ∀ usage ∈ usages, (usage.map Prod.fst).Nodup)
    (s : Usage × List UsageValue) : usages.foldlM (fun s usage => usage.foldlM sumStep s) s =
      (allEntries usages).bind fun xs =>
        (usages.foldlM (fun totals usage => Dict.updateM sumField totals (counters usage)) s.1).map
          fun totals => (totals, s.2 ++ xs) := by
  induction usages generalizing s with
  | nil =>
    obtain ⟨totals, entries⟩ := s
    change some (totals, entries) = some (totals, entries ++ [])
    rw [List.append_nil]
  | cons usage usages ih =>
    have hrest := ih fun u hu => hn u (List.mem_cons_of_mem _ hu)
    rw [List.foldlM_cons, foldlM_sumStep (hn usage List.mem_cons_self), allEntries, List.foldlM_cons]
    cases hxs : iterate (field usage "entries") with
    | none => rfl
    | some xs =>
      cases htotals : Dict.updateM sumField s.1 (counters usage) with
      | none => cases hall : allEntries usages <;> rfl
      | some totals =>
        simp only [Option.bind_eq_bind, Option.bind_some, Option.map_some, hrest]
        cases hall : allEntries usages with
        | none => rfl
        | some rest =>
          simp only [Option.bind_some, List.append_assoc]
          rfl

/-- The loops of `_sum_usage`, taken apart. -/
theorem sumItems_eq (hn : ∀ usage ∈ usages, (usage.map Prod.fst).Nodup) :
    sumItems usages = (allEntries usages).bind fun entries =>
      (allTotals usages).map fun totals => (totals, entries) :=
  foldlM_sumItems hn ([], [])

/-- One usage object in a sum: what it does to a total. -/
theorem get?_sumTotals {totals totals' usage : Usage} (hn : (usage.map Prod.fst).Nodup)
    (h : Dict.updateM sumField totals (counters usage) = some totals') {key : String}
    (hkey : key ≠ "entries") :
    (Dict.get? usage key = none → Dict.get? totals' key = Dict.get? totals key) ∧
      ∀ v, Dict.get? usage key = some v →
        ∃ w, sumField key (Dict.get? totals key) v = some w ∧ Dict.get? totals' key = some w := by
  have hget := Dict.get?_updateM (counters_nodup hn) h key
  rw [get?_counters hn hkey] at hget
  exact hget

/-- No total stands under the key of the entries. -/
theorem get?_sumTotals_entries {totals totals' usage : Usage} (hn : (usage.map Prod.fst).Nodup)
    (h : Dict.updateM sumField totals (counters usage) = some totals') :
    Dict.get? totals' "entries" = Dict.get? totals "entries" := by
  apply (Dict.get?_updateM (counters_nodup hn) h "entries").1
  rw [counters, Dict.get?_filter hn]
  cases Dict.get? usage "entries" with
  | none => rfl
  | some v => rfl

end
end Qraft
