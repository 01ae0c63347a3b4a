import Qraft.Usage.Aggregate
import Qraft.Usage.Currency

/-! `_sum_usage` over usage objects in any order: when it returns, and when its totals are the sums. -/
namespace Qraft
open UsageValue

/-- A usage object as a column holds it: JSON, with numbers that `Decimal` reads. -/
structure IsStored (u : Usage) : Prop where
  nodup : (u.map Prod.fst).Nodup
  encoded : ∀ key v, Dict.get? u key = some v → v.encode = v
  numbers : ∀ key v, Dict.get? u key = some v → v.isNumeric = true → v.money ≠ none

/-- What a value adds under a key, if it is numeric there. -/
def summand (key : String) (v : UsageValue) : Option Decimal :=
  if key ∈ moneyKeys then v.money else if v.isNumeric then v.numeral else none

def valuesOf (key : String) (usages : List Usage) : List UsageValue :=
  usages.filterMap fun u => Dict.get? u key

def summands (key : String) (usages : List Usage) : List Decimal :=
  (valuesOf key usages).filterMap (summand key)

def sumOf (key : String) (usages : List Usage) : ℚ :=
  ((summands key usages).map fun d => d.value.getD 0).sum

/-- Each total is the sum of the numeric values under its key, where there are any. -/
def TotalsAreSums (usages : List Usage) (total : Usage) : Prop :=
  ∀ key, key ≠ "entries" → summands key usages ≠ [] →
    (∀ d ∈ summands key usages, d.value.isSome = true) ∧
      ((Dict.get? total key).bind (summand key)).bind Decimal.value = some (sumOf key usages)

/-- In whatever order the usage objects come, `_sum_usage` returns, with totals that are the sums. -/
def SumsInAnyOrder (resolver : Option StaticTablePricing) (usages : List Usage) : Prop :=
  ∀ us : List Usage, us.Perm usages → ∃ total, sumUsage resolver us = some total ∧ TotalsAreSums usages total

/-- `(total or Decimal(0)) + amount`. -/
def addAmount (total amount : Decimal) : Option Decimal :=
  (if (UsageValue.decimal total).truthy then total else Decimal.ofInt 0).add amount

/-- Python adds the numeric values up, one after the other, without an error and without rounding. -/
def AddsUp (key : String) (usages : List Usage) : Prop :=
  if key ∈ moneyKeys then
    ∃ d, (summands key usages).foldlM addAmount (Decimal.ofInt 0) = some d ∧
      d.value = some (sumOf key usages)
  else
    ∃ w, ((valuesOf key usages).filter isNumeric).foldlM plus (.int 0) = some w ∧
      w.number = some (sumOf key usages)

/-- Usage objects that can be summed in any order. -/
structure Summing (resolver : Option StaticTablePricing) (usages : List Usage) : Prop where
  /-- Under a key with a number, every value is one. -/
  uniform : ∀ key, key ≠ "entries" → summands key usages ≠ [] → ∀ v ∈ valuesOf key usages,
    ∃ d, summand key v = some d ∧ d.value.isSome = true
  exact : ∀ key, key ≠ "entries" → summands key usages ≠ [] →
    ∀ us : List Usage, us.Perm usages → AddsUp key us
  /-- The entries are lists, and can be priced. -/
  entries : ∀ u ∈ usages, (iterate (field u "entries")).isSome = true
  priced : ∀ us : List Usage, us.Perm usages → ∀ entries, allEntries us = some entries →
    (entries.foldlM (Costing.step resolver) {}).isSome = true
  /-- A number is summed under the summary's key only where there is nothing to price. -/
  summary : summands "cost_summary" usages ≠ [] → ∀ u ∈ usages,
    iterate (field u "entries") = some [] ∧ (field u "cost").truthy = false ∧ (field u "cost").money = none

/-- A condition on the values alone: counters are whole numbers, and the amounts under a key that holds
money fit together, and so do the charges of the entries. -/
structure Addable (resolver : Option StaticTablePricing) (usages : List Usage) : Prop where
  counters : ∀ key, key ≠ "entries" → key ∉ moneyKeys → summands key usages ≠ [] →
    ∀ v ∈ valuesOf key usages, ∃ n : ℤ, v = .int n
  amounts : ∀ key ∈ moneyKeys, summands key usages ≠ [] →
    (∀ v ∈ valuesOf key usages, ∃ d, v.money = some d ∧ d.value.isSome = true) ∧
      Decimal.FitTogether ((summands key usages).map fun d => d.value.getD 0)
  charges : ∃ entries charges, allEntries usages = some entries ∧
    chargesOf resolver entries = some charges ∧ (∀ c ∈ charges, c.1.value.isSome = true) ∧
      Decimal.FitTogether (charges.map fun c => c.1.value.getD 0)
  summary : summands "cost_summary" usages ≠ [] → ∀ u ∈ usages,
    iterate (field u "entries") = some [] ∧ (field u "cost").truthy = false ∧ (field u "cost").money = none

def keyStep (key : String) (current : Option UsageValue) (v : UsageValue) : Option (Option UsageValue) :=
  (sumField key current v).map some

section
variable {resolver : Option StaticTablePricing} {usages us : List Usage} {u totals totals' : Usage}
  {key : String} {v : UsageValue} {current : Option UsageValue}

private theorem valuesOf_cons_none (h : Dict.get? u key = none) : valuesOf key (u :: us) = valuesOf key us := by
  unfold valuesOf
  rw [List.filterMap_cons, h]

private theorem valuesOf_cons_some (h : Dict.get? u key = some v) :
    valuesOf key (u :: us) = v :: valuesOf key us := by
  unfold valuesOf
  rw [List.filterMap_cons, h]

/-- The totals, key by key. -/
theorem totals_key (hn : ∀ u ∈ us, (u.map Prod.fst).Nodup)
    (h : us.foldlM (fun totals usage => Dict.updateM sumField totals (counters usage)) totals = some totals')
    (hkey : key ≠ "entries") :
    (valuesOf key us).foldlM (keyStep key) (Dict.get? totals key) = some (Dict.get? totals' key) := by
  induction us generalizing totals with
  | nil =>
    cases h
    rfl
  | cons u us ih =>
    rw [List.foldlM_cons] at h
    obtain ⟨next, hnext, hrest⟩ := Option.bind_eq_some_iff.mp h
    obtain ⟨hout, hin⟩ := get?_sumTotals (hn u List.mem_cons_self) hnext hkey
    have hall := ih (fun u hu => hn u (List.mem_cons_of_mem _ hu)) hrest
    cases hv : Dict.get? u key with
    | none =>
      rw [hout hv] at hall
      rw [valuesOf_cons_none hv]
      exact hall
    | some v =>
      obtain ⟨w, hw, hget⟩ := hin v hv
      rw [hget] at hall
      rw [valuesOf_cons_some hv, List.foldlM_cons, keyStep, hw]
      exact hall

/-- The totals can be made where each of them can. -/
theorem exists_totals (hn : ∀ u ∈ us, (u.map Prod.fst).Nodup)
    (h : ∀ key, key ≠ "entries" →
      ((valuesOf key us).foldlM (keyStep key) (Dict.get? totals key)).isSome = true) :
    ∃ totals', us.foldlM (fun totals usage => Dict.updateM sumField totals (counters usage)) totals =
      some totals' := by
  induction us generalizing totals with
  | nil => exact ⟨totals, rfl⟩
  | cons u us ih =>
    have hu := hn u List.mem_cons_self
    have hstep : ∀ key v, Dict.get? (counters u) key = some v →
        (sumField key (Dict.get? totals key) v).isSome = true := by
      intro key v hv
      have hkey : key ≠ "entries" := by
        rintro rfl
        rw [counters, Dict.get?_filter hu] at hv
        cases hget : Dict.get? u "entries" with
        | none =>
          rw [hget] at hv
          cases hv
        | some w =>
          rw [hget] at hv
          cases hv
      rw [get?_counters hu hkey] at hv
      have hall := h key hkey
      rw [valuesOf_cons_some hv, List.foldlM_cons, keyStep] at hall
      cases hsum : sumField key (Dict.get? totals key) v with
      | none =>
        rw [hsum] at hall
        cases hall
      | some w => rfl
    obtain ⟨next, hnext⟩ := Dict.exists_updateM (counters_nodup hu) totals hstep
    have hrest : ∀ key, key ≠ "entries" →
        ((valuesOf key us).foldlM (keyStep key) (Dict.get? next key)).isSome = true := by
      intro key hkey
      obtain ⟨hout, hin⟩ := get?_sumTotals hu hnext hkey
      have hall := h key hkey
      cases hv : Dict.get? u key with
      | none =>
        rw [hout hv]
        rw [valuesOf_cons_none hv] at hall
        exact hall
      | some v =>
        obtain ⟨w, hw, hget⟩ := hin v hv
        rw [valuesOf_cons_some hv, List.foldlM_cons, keyStep, hw] at hall
        rw [hget]
        exact hall
    obtain ⟨totals', htotals⟩ := ih (fun u hu => hn u (List.mem_cons_of_mem _ hu)) hrest
    refine ⟨totals', ?_⟩
    rw [List.foldlM_cons, hnext]
    exact htotals

private theorem numeral_isSome (h : v.isNumeric = true) : v.numeral.isSome = true := by
  cases v with
  | int n => rfl
  | num negative c e => rfl
  | decimal d => rfl
  | null => cases h
  | bool b => cases h
  | str s => cases h
  | list xs => cases h
  | dict fields => cases h

/-- A value that is not numeric under its key becomes the total. -/
private theorem keyStep_plain (hs : summand key v = none) (hn : v.isNumeric = true → v.money ≠ none) :
    keyStep key current v = some (some v) := by
  have hmoney : moneyOf key v = none ∧ v.isNumeric = false := by
    unfold summand at hs
    unfold moneyOf
    split at hs
    · rename_i hkey
      rw [if_pos hkey]
      exact ⟨hs, Bool.eq_false_iff.mpr fun hnumeric => hn hnumeric hs⟩
    · rename_i hkey
      rw [if_neg hkey]
      refine ⟨rfl, Bool.eq_false_iff.mpr fun hnumeric => ?_⟩
      rw [if_pos hnumeric] at hs
      have hsome := numeral_isSome hnumeric
      rw [hs] at hsome
      cases hsome
  rw [keyStep, sumField, hmoney.1, hmoney.2]
  rfl

/-- Values of which none is numeric. -/
private theorem fold_plain {vs : List UsageValue} (hs : ∀ v ∈ vs, summand key v = none)
    (hn : ∀ v ∈ vs, v.isNumeric = true → v.money ≠ none) :
    ∃ t, vs.foldlM (keyStep key) current = some t ∧ (t = current ∨ ∃ v ∈ vs, t = some v) := by
  induction vs generalizing current with
  | nil => exact ⟨current, rfl, .inl rfl⟩
  | cons v vs ih =>
    obtain ⟨t, ht, hor⟩ := ih (fun v hv => hs v (List.mem_cons_of_mem _ hv))
      fun v hv => hn v (List.mem_cons_of_mem _ hv)
    refine ⟨t, ?_, .inr ?_⟩
    · rw [List.foldlM_cons, keyStep_plain (hs v List.mem_cons_self) (hn v List.mem_cons_self)]
      exact ht
    · rcases hor with rfl | ⟨w, hw, rfl⟩
      · exact ⟨v, List.mem_cons_self, rfl⟩
      · exact ⟨w, List.mem_cons_of_mem _ hw, rfl⟩

/-- One amount under a key that holds money. -/
private theorem keyStep_money {d total : Decimal} (hkey : key ∈ moneyKeys) (hv : v.money = some d)
    (hcurrent : ((current.getD .null).money.filter fun d => (UsageValue.decimal d).truthy).getD
      (Decimal.ofInt 0) = if (UsageValue.decimal total).truthy then total else Decimal.ofInt 0) :
    keyStep key current v = (addAmount total d).map fun s => some (moneyText s) := by
  have hmoney : moneyOf key v = some d := by rw [moneyOf, if_pos hkey, hv]
  rw [keyStep, sumField, hmoney]
  dsimp only
  rw [hcurrent, Option.map_map, addAmount]
  rfl

private theorem keyStep_moneyText {d total : Decimal} (hkey : key ∈ moneyKeys) (hv : v.money = some d)
    (hrange : total.InRange) :
    keyStep key (some (moneyText total)) v = (addAmount total d).map fun s => some (moneyText s) := by
  apply keyStep_money hkey hv
  rw [Option.getD_some, money_moneyText hrange, Option.filter_some]
  split
  · rfl
  · rfl

/-- The amounts under a key that holds money, after the first. -/
private theorem fold_moneyText {vs : List UsageValue} {ds : List Decimal} (hkey : key ∈ moneyKeys)
    (h : List.Forall₂ (fun v d => UsageValue.money v = some d) vs ds) {total : Decimal}
    (hrange : total.InRange) : vs.foldlM (keyStep key) (some (moneyText total)) =
      (ds.foldlM addAmount total).map fun d => some (moneyText d) := by
  induction h generalizing total with
  | nil => rfl
  | @cons v d vs ds hv _ ih =>
    rw [List.foldlM_cons, List.foldlM_cons, keyStep_moneyText hkey hv hrange]
    cases hsum : addAmount total d with
    | none => rfl
    | some s => exact ih (Decimal.inRange_of_add hsum)

private theorem fold_money {vs : List UsageValue} {ds : List Decimal} (hkey : key ∈ moneyKeys)
    (h : List.Forall₂ (fun v d => UsageValue.money v = some d) vs ds) (hne : vs ≠ []) :
    vs.foldlM (keyStep key) none =
      (ds.foldlM addAmount (Decimal.ofInt 0)).map fun d => some (moneyText d) := by
  cases h with
  | nil => exact absurd rfl hne
  | @cons v d vs ds hv hrest =>
    have hstep : keyStep key none v = (addAmount (Decimal.ofInt 0) d).map fun s => some (moneyText s) :=
      keyStep_money hkey hv rfl
    rw [List.foldlM_cons, List.foldlM_cons, hstep]
    cases hsum : addAmount (Decimal.ofInt 0) d with
    | none => rfl
    | some s => exact fold_moneyText hkey hrest (Decimal.inRange_of_add hsum)

private theorem add_eq_plus {a b : UsageValue} (ha : a.encode = a) (hb : b.encode = b) :
    UsageValue.add a b = plus a b := by
  cases a with
  | decimal d => cases ha
  | null => cases b with
    | decimal d => cases hb
    | _ => rfl
  | bool x => cases b with
    | decimal d => cases hb
    | _ => rfl
  | int x => cases b with
    | decimal d => cases hb
    | _ => rfl
  | num n c e => cases b with
    | decimal d => cases hb
    | _ => rfl
  | str x => cases b with
    | decimal d => cases hb
    | _ => rfl
  | list x => cases b with
    | decimal d => cases hb
    | _ => rfl
  | dict x => cases b with
    | decimal d => cases hb
    | _ => rfl

/-- A sum is an `int` or a `float`. -/
private theorem plus_numeric {a b w : UsageValue} (h : plus a b = some w) :
    w.isNumeric = true ∧ w.encode = w := by
  unfold plus at h
  split at h
  · cases h
    exact ⟨rfl, rfl⟩
  · obtain ⟨⟨negative, c, e⟩, -, rfl⟩ := Option.map_eq_some_iff.mp h
    exact ⟨rfl, rfl⟩
  · cases h

private theorem keyStep_count (hkey : key ∉ moneyKeys) (hv : v.isNumeric = true) (hencode : v.encode = v)
    {start : UsageValue} (hstart : current.getD (.int 0) = start) (hs : start.encode = start) :
    keyStep key current v = (plus start v).map some := by
  have hmoney : moneyOf key v = none := by rw [moneyOf, if_neg hkey]
  rw [keyStep, sumField, hmoney]
  dsimp only
  rw [if_pos hv, hstart, add_eq_plus hs hencode]

/-- The numbers under another key, after the first. -/
private theorem fold_counts {vs : List UsageValue} (hkey : key ∉ moneyKeys)
    (hv : ∀ v ∈ vs, v.isNumeric = true ∧ v.encode = v) {w : UsageValue} (hw : w.encode = w) :
    vs.foldlM (keyStep key) (some w) = (vs.foldlM plus w).map some := by
  induction vs generalizing w with
  | nil => rfl
  | cons v vs ih =>
    obtain ⟨hnumeric, hencode⟩ := hv v List.mem_cons_self
    have hstep : keyStep key (some w) v = (plus w v).map some := keyStep_count hkey hnumeric hencode rfl hw
    rw [List.foldlM_cons, List.foldlM_cons, hstep]
    cases hsum : plus w v with
    | none => rfl
    | some s => exact ih (fun v hin => hv v (List.mem_cons_of_mem _ hin)) (plus_numeric hsum).2

private theorem fold_count {vs : List UsageValue} (hkey : key ∉ moneyKeys)
    (hv : ∀ v ∈ vs, v.isNumeric = true ∧ v.encode = v) (hne : vs ≠ []) :
    vs.foldlM (keyStep key) none = (vs.foldlM plus (.int 0)).map some := by
  cases vs with
  | nil => exact absurd rfl hne
  | cons v vs =>
    obtain ⟨hnumeric, hencode⟩ := hv v List.mem_cons_self
    have hstep : keyStep key none v = (plus (.int 0) v).map some :=
      keyStep_count hkey hnumeric hencode rfl rfl
    rw [List.foldlM_cons, List.foldlM_cons, hstep]
    cases hsum : plus (.int 0) v with
    | none => rfl
    | some s => exact fold_counts hkey (fun v hin => hv v (List.mem_cons_of_mem _ hin)) (plus_numeric hsum).2

private theorem fold_inRange {ds : List Decimal} {total d : Decimal} (htotal : total.InRange)
    (h : ds.foldlM addAmount total = some d) : d.InRange := by
  induction ds generalizing total with
  | nil =>
    cases h
    exact htotal
  | cons amount ds ih =>
    rw [List.foldlM_cons] at h
    obtain ⟨s, hs, hrest⟩ := Option.bind_eq_some_iff.mp h
    exact ih (Decimal.inRange_of_add hs) hrest

private theorem fold_numeric {vs : List UsageValue} {start w : UsageValue} (hstart : start.isNumeric = true)
    (h : vs.foldlM plus start = some w) : w.isNumeric = true := by
  induction vs generalizing start with
  | nil =>
    cases h
    exact hstart
  | cons v vs ih =>
    rw [List.foldlM_cons] at h
    obtain ⟨s, hs, hrest⟩ := Option.bind_eq_some_iff.mp h
    exact ih (plus_numeric hs).1 hrest

private theorem summand_count (hkey : key ∉ moneyKeys) (hv : v.isNumeric = true) :
    (summand key v).bind Decimal.value = v.number := by
  rw [summand, if_neg hkey, if_pos hv]
  cases v with
  | int n => exact Decimal.value_ofInt n
  | num negative c e => rfl
  | decimal d => rfl
  | null => cases hv
  | bool b => cases hv
  | str s => cases hv
  | list xs => cases hv
  | dict fields => cases hv

private theorem forall₂_filterMap {α β : Type} {f : α → Option β} {xs : List α}
    (h : ∀ x ∈ xs, (f x).isSome = true) : List.Forall₂ (fun x y => f x = some y) xs (xs.filterMap f) := by
  induction xs with
  | nil => exact .nil
  | cons x xs ih =>
    obtain ⟨y, hy⟩ := Option.isSome_iff_exists.mp (h x List.mem_cons_self)
    rw [List.filterMap_cons, hy]
    exact .cons hy (ih fun x hx => h x (List.mem_cons_of_mem _ hx))

/-- Where every value under a key is numeric, the total is what Python adds up. -/
private theorem addsUp_iff_fold (hstored : ∀ v ∈ valuesOf key us, v.encode = v)
    (hall : ∀ v ∈ valuesOf key us, (summand key v).isSome = true) (hne : valuesOf key us ≠ []) :
    AddsUp key us ↔ ∃ t, (valuesOf key us).foldlM (keyStep key) none = some t ∧
      (t.bind (summand key)).bind Decimal.value = some (sumOf key us) := by
  unfold AddsUp
  split
  · rename_i hkey
    have hsummand : summand key = money := by
      funext v
      rw [summand, if_pos hkey]
    have hvalues : List.Forall₂ (fun v d => UsageValue.money v = some d) (valuesOf key us)
        (summands key us) := by
      rw [hsummand] at hall
      rw [summands, hsummand]
      exact forall₂_filterMap hall
    rw [fold_money hkey hvalues hne, hsummand]
    constructor
    · rintro ⟨d, hd, hvalue⟩
      refine ⟨some (moneyText d), by rw [hd]; rfl, ?_⟩
      rw [Option.bind_some, money_moneyText (fold_inRange (by decide) hd), Option.bind_some, hvalue]
    · rintro ⟨t, ht, hvalue⟩
      obtain ⟨d, hd, rfl⟩ := Option.map_eq_some_iff.mp ht
      rw [Option.bind_some, money_moneyText (fold_inRange (by decide) hd), Option.bind_some] at hvalue
      exact ⟨d, hd, hvalue⟩
  · rename_i hkey
    have hnumeric : ∀ v ∈ valuesOf key us, v.isNumeric = true := by
      intro v hv
      have hsome := hall v hv
      rw [summand, if_neg hkey] at hsome
      by_contra hno
      rw [if_neg hno] at hsome
      cases hsome
    rw [List.filter_eq_self.mpr hnumeric, fold_count hkey (fun v hv => ⟨hnumeric v hv, hstored v hv⟩) hne]
    constructor
    · rintro ⟨w, hw, hvalue⟩
      refine ⟨some w, by rw [hw]; rfl, ?_⟩
      rw [Option.bind_some, summand_count hkey (fold_numeric rfl hw), hvalue]
    · rintro ⟨t, ht, hvalue⟩
      obtain ⟨w, hw, rfl⟩ := Option.map_eq_some_iff.mp ht
      refine ⟨w, hw, ?_⟩
      rw [Option.bind_some, summand_count hkey (fold_numeric rfl hw)] at hvalue
      exact hvalue

private theorem foldlM_entries (hn : ∀ u ∈ us, (u.map Prod.fst).Nodup)
    (h : us.foldlM (fun totals usage => Dict.updateM sumField totals (counters usage)) totals = some totals') :
    Dict.get? totals' "entries" = Dict.get? totals "entries" := by
  induction us generalizing totals with
  | nil =>
    cases h
    rfl
  | cons u us ih =>
    rw [List.foldlM_cons] at h
    obtain ⟨next, hnext, hrest⟩ := Option.bind_eq_some_iff.mp h
    rw [ih (fun u hu => hn u (List.mem_cons_of_mem _ hu)) hrest]
    exact get?_sumTotals_entries (hn u List.mem_cons_self) hnext

private theorem or_truthy (a b : UsageValue) : (a.or b).truthy = (a.truthy || b.truthy) := by
  unfold UsageValue.or
  cases h : a.truthy with
  | true => exact h
  | false => rfl

/-- What is summed is priced where there are entries, or a cost that counts. -/
private theorem costSummary_totals (resolver : Option StaticTablePricing) {entries : List UsageValue}
    (hnone : Dict.get? totals "entries" = none) :
    (costSummary resolver (withEntries totals entries) = some none ↔
      entries = [] ∧ (field totals "cost").truthy = false) ∧
    ((costSummary resolver (withEntries totals entries)).isSome = true ↔
      (entries.foldlM (Costing.step resolver) {}).isSome = true) := by
  have hcost : field (withEntries totals entries) "cost" = field totals "cost" := by
    unfold withEntries
    split
    · rfl
    · rw [field, Dict.get?_set_ne _ _ (by decide), field]
  unfold costSummary
  rw [or_truthy, hcost]
  cases entries with
  | nil =>
    have hentries : field (withEntries totals []) "entries" = .null := field_of_none hnone
    rw [hentries]
    cases hc : (field totals "cost").truthy with
    | false => simp [UsageValue.truthy]
    | true =>
      have hpriced : (usageCost resolver (withEntries totals [])).isSome = true := by
        rw [usageCost, hentries, iterate_null, Option.bind_eq_bind, Option.bind_some, List.isEmpty_nil, if_pos rfl]
        cases (field (withEntries totals []) "cost").money with
        | none => rfl
        | some legacy => rfl
      obtain ⟨summary, hsummary⟩ := Option.isSome_iff_exists.mp hpriced
      rw [hsummary]
      simp [UsageValue.truthy]
  | cons x xs =>
    have hentries : field (withEntries totals (x :: xs)) "entries" = .list (x :: xs) :=
      field_of_get? (Dict.get?_set_self _ _ _)
    have hloop : usageCost resolver (withEntries totals (x :: xs)) =
        ((x :: xs).foldlM (Costing.step resolver) {}).map fun s => {
          amount := s.amount
          currency := s.currency
          coverage := if s.priced = 0 then .none else if s.unpriced = 0 then .complete else .partialOnly
          estimated := s.estimated || s.priced = 0 } := by
      rw [usageCost, hentries, iterate_list, Option.bind_eq_bind, Option.bind_some, List.isEmpty_cons,
        if_neg Bool.false_ne_true]
      cases (x :: xs).foldlM (Costing.step resolver) {} with
      | none => rfl
      | some s => rfl
    rw [hentries, hloop]
    cases (x :: xs).foldlM (Costing.step resolver) {} with
    | none => simp [UsageValue.truthy]
    | some s => simp [UsageValue.truthy]

private theorem get?_withEntries {entries : List UsageValue} (hkey : key ≠ "entries") :
    Dict.get? (withEntries totals entries) key = Dict.get? totals key := by
  unfold withEntries
  split
  · rfl
  · exact Dict.get?_set_ne _ _ hkey

/-- Where `_sum_usage` returns, and what it returns. -/
private theorem sumUsage_parts {total : Usage} (hn : ∀ u ∈ us, (u.map Prod.fst).Nodup)
    (h : sumUsage resolver us = some total) :
    ∃ entries totals, allEntries us = some entries ∧ allTotals us = some totals ∧
      (entries.foldlM (Costing.step resolver) {}).isSome = true ∧
      (∀ key, key ≠ "entries" → key ≠ "cost_summary" → Dict.get? total key = Dict.get? totals key) ∧
      ((∃ summary, Dict.get? total "cost_summary" = some (.dict summary) ∧
          ¬ (entries = [] ∧ (field totals "cost").truthy = false)) ∨
        (Dict.get? total "cost_summary" = Dict.get? totals "cost_summary" ∧ entries = [] ∧
          (field totals "cost").truthy = false)) := by
  obtain ⟨⟨totals, entries⟩, hitems, h⟩ := Option.bind_eq_some_iff.mp h
  rw [sumItems_eq hn] at hitems
  obtain ⟨xs, hentries, hitems⟩ := Option.bind_eq_some_iff.mp hitems
  obtain ⟨totals', htotals, he⟩ := Option.map_eq_some_iff.mp hitems
  cases he
  obtain ⟨summary, hsummary, h⟩ := Option.bind_eq_some_iff.mp h
  have hnone : Dict.get? totals "entries" = none := foldlM_entries hn htotals
  obtain ⟨hunpriced, hloop⟩ := @costSummary_totals totals resolver entries hnone
  refine ⟨entries, totals, hentries, htotals, hloop.mp (by rw [hsummary]; rfl), ?_, ?_⟩
  · intro key hkey hother
    cases summary with
    | none =>
      cases h
      exact get?_withEntries hkey
    | some summary =>
      cases h
      rw [Dict.get?_set_ne _ _ hother, get?_withEntries hkey]
  · cases summary with
    | none =>
      cases h
      exact .inr ⟨get?_withEntries (by decide), hunpriced.mp hsummary⟩
    | some summary =>
      cases h
      refine .inl ⟨summary, Dict.get?_set_self _ _ _, fun hnothing => ?_⟩
      rw [hunpriced.mpr hnothing] at hsummary
      cases hsummary

private theorem exists_sumUsage {entries : List UsageValue} (hn : ∀ u ∈ us, (u.map Prod.fst).Nodup)
    (hentries : allEntries us = some entries) (htotals : allTotals us = some totals)
    (hloop : (entries.foldlM (Costing.step resolver) {}).isSome = true) :
    ∃ total, sumUsage resolver us = some total := by
  have hnone : Dict.get? totals "entries" = none := foldlM_entries hn htotals
  obtain ⟨summary, hsummary⟩ :=
    Option.isSome_iff_exists.mp ((costSummary_totals resolver hnone).2.mpr hloop)
  rw [sumUsage, sumItems_eq hn, hentries, htotals, Option.bind_eq_bind, Option.bind_some, Option.map_some,
    Option.bind_some]
  dsimp only
  rw [hsummary]
  cases summary with
  | none => exact ⟨_, rfl⟩
  | some summary => exact ⟨_, rfl⟩

private theorem allEntries_isSome : (allEntries us).isSome = true ↔
    ∀ u ∈ us, (iterate (field u "entries")).isSome = true := by
  induction us with
  | nil => exact iff_of_true rfl fun u hu => absurd hu List.not_mem_nil
  | cons u us ih =>
    rw [List.forall_mem_cons, ← ih, allEntries]
    cases iterate (field u "entries") with
    | none => simp
    | some xs =>
      cases allEntries us with
      | none => simp
      | some rest => simp

private theorem allEntries_nil : allEntries us = some [] ↔
    ∀ u ∈ us, iterate (field u "entries") = some [] := by
  induction us with
  | nil => exact iff_of_true rfl fun u hu => absurd hu List.not_mem_nil
  | cons u us ih =>
    rw [List.forall_mem_cons, ← ih, allEntries]
    cases iterate (field u "entries") with
    | none => simp
    | some xs =>
      cases allEntries us with
      | none => simp
      | some rest => simp

/-- Any of the usage objects can come last. -/
private theorem exists_last (h : u ∈ usages) : ∃ us, (us ++ [u]).Perm usages := by
  obtain ⟨before, after, rfl⟩ := List.append_of_mem h
  refine ⟨before ++ after, ?_⟩
  exact (List.perm_append_singleton u _).trans List.perm_middle.symm

private theorem valuesOf_last (h : Dict.get? u key = some v) :
    valuesOf key (us ++ [u]) = valuesOf key us ++ [v] := by
  unfold valuesOf
  rw [List.filterMap_append, List.filterMap_cons, h]
  rfl

/-- A value that is not numeric, and comes last, is the total. -/
private theorem fold_last {vs : List UsageValue} {t : Option UsageValue} (hs : summand key v = none)
    (hn : v.isNumeric = true → v.money ≠ none) (h : (vs ++ [v]).foldlM (keyStep key) current = some t) :
    t = some v := by
  rw [List.foldlM_append] at h
  obtain ⟨before, -, h⟩ := Option.bind_eq_some_iff.mp h
  rw [List.foldlM_cons, keyStep_plain hs hn] at h
  cases h
  rfl

private theorem summands_perm (h : us.Perm usages) : (summands key us).Perm (summands key usages) :=
  (h.filterMap _).filterMap _

private theorem sumOf_perm (h : us.Perm usages) : sumOf key us = sumOf key usages :=
  ((summands_perm h).map _).sum_eq

private theorem mem_summands {d : Decimal} (hv : v ∈ valuesOf key us) (hd : summand key v = some d) :
    d ∈ summands key us :=
  List.mem_filterMap.mpr ⟨v, hv, hd⟩

/-- The total under a key with numbers, in one order. -/
private theorem total_of_sums {total : Usage} (hn : ∀ u ∈ us, (u.map Prod.fst).Nodup)
    (h : sumUsage resolver us = some total) (hsums : TotalsAreSums usages total) (hkey : key ≠ "entries")
    (hne : summands key usages ≠ []) :
    ∃ t, (valuesOf key us).foldlM (keyStep key) none = some t ∧
      (t.bind (summand key)).bind Decimal.value = some (sumOf key usages) ∧
        (key = "cost_summary" → ∃ entries totals, allEntries us = some entries ∧ allTotals us = some totals ∧
          entries = [] ∧ (field totals "cost").truthy = false) := by
  obtain ⟨entries, totals, hentries, htotals, -, hother, hsummary⟩ := sumUsage_parts hn h
  obtain ⟨-, hsum⟩ := hsums key hkey hne
  have hfold := totals_key hn htotals hkey
  by_cases hcs : key = "cost_summary"
  · subst hcs
    rcases hsummary with ⟨summary, hget, -⟩ | ⟨hget, hnothing⟩
    · rw [hget] at hsum
      cases hsum
    · rw [hget] at hsum
      exact ⟨_, hfold, hsum, fun _ => ⟨entries, totals, hentries, htotals, hnothing⟩⟩
  · rw [hother key hkey hcs] at hsum
    exact ⟨_, hfold, hsum, fun he => absurd he hcs⟩

/-- A list in which `_sum_usage` sums in any order is one that can be summed. -/
private theorem summing_of_sums (hs : ∀ u ∈ usages, IsStored u) (h : SumsInAnyOrder resolver usages) :
    Summing resolver usages := by
  have hnodup {us : List Usage} (hperm : us.Perm usages) : ∀ u ∈ us, (u.map Prod.fst).Nodup :=
    fun u hu => (hs u (hperm.mem_iff.mp hu)).nodup
  have huniform : ∀ key, key ≠ "entries" → summands key usages ≠ [] → ∀ v ∈ valuesOf key usages,
      ∃ d, summand key v = some d ∧ d.value.isSome = true := by
    intro key hkey hne v hv
    obtain ⟨u, hu, hget⟩ := List.mem_filterMap.mp hv
    obtain ⟨us, hperm⟩ := exists_last hu
    obtain ⟨total, htotal, hsums⟩ := h (us ++ [u]) hperm
    cases hsummand : summand key v with
    | some d => exact ⟨d, rfl, (hsums key hkey hne).1 d (mem_summands hv hsummand)⟩
    | none =>
      -- Last in the list, the value would be the total.
      obtain ⟨t, ht, hsum, -⟩ := total_of_sums (hnodup hperm) htotal hsums hkey hne
      rw [valuesOf_last hget] at ht
      rw [fold_last hsummand ((hs u hu).numbers key v hget) ht, Option.bind_some, hsummand] at hsum
      cases hsum
  refine ⟨huniform, ?_, ?_, ?_, ?_⟩
  · intro key hkey hne us hperm
    obtain ⟨total, htotal, hsums⟩ := h us hperm
    obtain ⟨t, ht, hsum, -⟩ := total_of_sums (hnodup hperm) htotal hsums hkey hne
    rw [← sumOf_perm hperm] at hsum
    have hvalues : ∀ v ∈ valuesOf key us, v ∈ valuesOf key usages := fun v hv => (hperm.filterMap _).mem_iff.mp hv
    refine (addsUp_iff_fold ?_ ?_ ?_).mpr ⟨t, ht, hsum⟩
    · intro v hv
      obtain ⟨u, hu, hget⟩ := List.mem_filterMap.mp (hvalues v hv)
      exact (hs u hu).encoded key v hget
    · intro v hv
      obtain ⟨d, hd, -⟩ := huniform key hkey hne v (hvalues v hv)
      rw [hd]
      rfl
    · intro hnil
      apply hne
      apply List.Perm.eq_nil
      rw [← show summands key us = [] by rw [summands, hnil]; rfl]
      exact (summands_perm hperm).symm
  · obtain ⟨total, htotal, -⟩ := h usages (List.Perm.refl _)
    obtain ⟨entries, totals, hentries, -⟩ := sumUsage_parts (hnodup (List.Perm.refl _)) htotal
    exact allEntries_isSome.mp (by rw [hentries]; rfl)
  · intro us hperm entries hentries
    obtain ⟨total, htotal, -⟩ := h us hperm
    obtain ⟨entries', totals, hentries', -, hloop, -⟩ := sumUsage_parts (hnodup hperm) htotal
    rw [hentries] at hentries'
    cases hentries'
    exact hloop
  · intro hne u hu
    obtain ⟨us, hperm⟩ := exists_last hu
    obtain ⟨total, htotal, hsums⟩ := h (us ++ [u]) hperm
    obtain ⟨t, -, -, hnothing⟩ := total_of_sums (hnodup hperm) htotal hsums (by decide) hne
    obtain ⟨entries, totals, hentries, htotals, rfl, hcost⟩ := hnothing rfl
    refine ⟨allEntries_nil.mp hentries u (List.mem_append_right _ (List.mem_singleton_self u)), ?_⟩
    have hfold := totals_key (hnodup hperm) htotals (by decide : "cost" ≠ "entries")
    cases hget : Dict.get? u "cost" with
    | none =>
      rw [field_of_none hget]
      exact ⟨rfl, rfl⟩
    | some v =>
      rw [field_of_get? hget]
      rw [valuesOf_last hget] at hfold
      cases hmoney : v.money with
      | some d =>
        -- A cost that counts is a text, and so not nothing.
        rw [List.foldlM_append] at hfold
        obtain ⟨before, -, hlast⟩ := Option.bind_eq_some_iff.mp hfold
        have hmoneyOf : moneyOf "cost" v = some d := by rw [moneyOf, if_pos (by decide), hmoney]
        rw [List.foldlM_cons, keyStep, sumField, hmoneyOf] at hlast
        obtain ⟨next, hnext, hlast⟩ := Option.bind_eq_some_iff.mp hlast
        obtain ⟨w, hw, rfl⟩ := Option.map_eq_some_iff.mp hnext
        obtain ⟨s, -, rfl⟩ := Option.map_eq_some_iff.mp hw
        rw [field_of_get? (Option.some.inj hlast).symm, truthy_moneyText] at hcost
        cases hcost
      | none =>
        have hsummand : summand "cost" v = none := by rw [summand, if_pos (by decide), hmoney]
        have hlast := fold_last hsummand ((hs u hu).numbers "cost" v hget) hfold
        rw [field_of_get? hlast] at hcost
        exact ⟨hcost, rfl⟩

/-- A list that can be summed is one in which `_sum_usage` sums in any order. -/
private theorem sums_of_summing (hs : ∀ u ∈ usages, IsStored u) (h : Summing resolver usages) :
    SumsInAnyOrder resolver usages := by
  intro us hperm
  have hstored : ∀ u ∈ us, IsStored u := fun u hu => hs u (hperm.mem_iff.mp hu)
  have hn : ∀ u ∈ us, (u.map Prod.fst).Nodup := fun u hu => (hstored u hu).nodup
  have hvalues {key : String} {v : UsageValue} (hv : v ∈ valuesOf key us) :
      v.encode = v ∧ (v.isNumeric = true → v.money ≠ none) := by
    obtain ⟨u, hu, hget⟩ := List.mem_filterMap.mp hv
    exact ⟨(hstored u hu).encoded key v hget, (hstored u hu).numbers key v hget⟩
  have hnone {key : String} (hempty : summands key us = []) :
      ∀ v ∈ valuesOf key us, summand key v = none := List.filterMap_eq_nil_iff.mp hempty
  have hsome {key : String} (hkey : key ≠ "entries") (hne : summands key us ≠ []) :
      ∃ t, (valuesOf key us).foldlM (keyStep key) none = some t ∧
        (t.bind (summand key)).bind Decimal.value = some (sumOf key us) := by
    have hne' : summands key usages ≠ [] := fun hnil => hne (hnil ▸ summands_perm hperm).eq_nil
    have hall : ∀ v ∈ valuesOf key us, (summand key v).isSome = true := by
      intro v hv
      have hin : v ∈ valuesOf key usages := (hperm.filterMap _).mem_iff.mp hv
      obtain ⟨d, hd, -⟩ := h.uniform key hkey hne' v hin
      rw [hd]
      rfl
    have hvne : valuesOf key us ≠ [] := by
      intro hnil
      apply hne
      rw [summands, hnil]
      rfl
    exact (addsUp_iff_fold (fun v hv => (hvalues hv).1) hall hvne).mp (h.exact key hkey hne' us hperm)
  have hfold : ∀ key, key ≠ "entries" →
      ((valuesOf key us).foldlM (keyStep key) (Dict.get? ([] : Usage) key)).isSome = true := by
    intro key hkey
    by_cases hempty : summands key us = []
    · obtain ⟨t, ht, -⟩ := fold_plain (hnone hempty) fun v hv => (hvalues hv).2
      exact Option.isSome_iff_exists.mpr ⟨t, ht⟩
    · obtain ⟨t, ht, -⟩ := hsome hkey hempty
      exact Option.isSome_iff_exists.mpr ⟨t, ht⟩
  obtain ⟨totals, htotals⟩ : ∃ totals, allTotals us = some totals := exists_totals hn hfold
  obtain ⟨entries, hentries⟩ := Option.isSome_iff_exists.mp
    (allEntries_isSome.mpr fun u hu => h.entries u (hperm.mem_iff.mp hu))
  obtain ⟨total, htotal⟩ := exists_sumUsage hn hentries htotals (h.priced us hperm entries hentries)
  refine ⟨total, htotal, fun key hkey hne => ⟨fun d hd => ?_, ?_⟩⟩
  · obtain ⟨v, hv, hsummand⟩ := List.mem_filterMap.mp hd
    obtain ⟨d', hd', hvalue⟩ := h.uniform key hkey hne v hv
    rw [hsummand] at hd'
    cases hd'
    exact hvalue
  · have hne' : summands key us ≠ [] := fun hnil => hne (hnil ▸ summands_perm hperm).symm.eq_nil
    obtain ⟨t, ht, hsum⟩ := hsome hkey hne'
    rw [← sumOf_perm hperm, ← hsum]
    obtain ⟨entries', totals', hentries', htotals', -, hother, hsummary⟩ := sumUsage_parts hn htotal
    rw [hentries] at hentries'
    rw [htotals] at htotals'
    cases hentries'
    cases htotals'
    have hkeyTotal {key : String} (hkey : key ≠ "entries") :=
      totals_key hn htotals hkey
    have htEq : Dict.get? totals key = t := by
      have hboth := (hkeyTotal hkey).symm.trans ht
      exact Option.some.inj hboth
    have hget : Dict.get? total key = Dict.get? totals key := by
      by_cases hcs : key = "cost_summary"
      · subst hcs
        rcases hsummary with ⟨summary, -, hpriced⟩ | ⟨hget, -⟩
        · exfalso
          apply hpriced
          have hunpriced := h.summary hne
          constructor
          · have hall := allEntries_nil.mpr fun u hu => (hunpriced u (hperm.mem_iff.mp hu)).1
            rw [hentries] at hall
            exact Option.some.inj hall
          · have hplain : ∀ v ∈ valuesOf "cost" us, summand "cost" v = none ∧ v.truthy = false := by
              intro v hv
              obtain ⟨u, hu, hget⟩ := List.mem_filterMap.mp hv
              obtain ⟨-, hfalsy, hmoney⟩ := hunpriced u (hperm.mem_iff.mp hu)
              rw [field_of_get? hget] at hfalsy hmoney
              exact ⟨by rw [summand, if_pos (by decide), hmoney], hfalsy⟩
            obtain ⟨c, hc, hor⟩ := fold_plain (fun v hv => (hplain v hv).1) fun v hv => (hvalues hv).2
            have hcost := (hkeyTotal (by decide : "cost" ≠ "entries")).symm.trans hc
            rw [field, Option.some.inj hcost]
            rcases hor with rfl | ⟨v, hv, rfl⟩
            · rfl
            · exact (hplain v hv).2
        · exact hget
      · exact hother key hkey hcs
    rw [hget, htEq]

private theorem value_rewritten {d : Decimal} {q : ℚ} (h : d.value = some q) :
    (if (UsageValue.decimal d).truthy then d else Decimal.ofInt 0).value = some q := by
  split
  · exact h
  · rename_i hfalsy
    cases d with
    | finite negative c e =>
      have hzero : c = 0 := by simpa [UsageValue.truthy] using hfalsy
      rw [← h, hzero, Decimal.value_ofInt]
      cases negative <;> simp [Decimal.value, Decimal.signed]
    | infinity negative => cases h
    | nan negative signaling payload => cases h

private theorem forall₂_value {ds : List Decimal} (h : ∀ d ∈ ds, d.value.isSome = true) :
    List.Forall₂ (fun d q => d.value = some q) ds (ds.map fun d => d.value.getD 0) := by
  induction ds with
  | nil => exact .nil
  | cons d ds ih =>
    obtain ⟨q, hq⟩ := Option.isSome_iff_exists.mp (h d List.mem_cons_self)
    refine .cons ?_ (ih fun d hd => h d (List.mem_cons_of_mem _ hd))
    change d.value = some (d.value.getD 0)
    rw [hq]
    rfl

/-- Whole numbers add up exactly. -/
private theorem fold_ints {vs : List UsageValue} (h : ∀ v ∈ vs, ∃ n : ℤ, v = .int n)
    (hkey : key ∉ moneyKeys) (start : ℤ) : ∃ m : ℤ, vs.foldlM plus (.int start) = some (.int m) ∧
      (m : ℚ) = start + ((vs.filterMap (summand key)).map fun d => d.value.getD 0).sum := by
  induction vs generalizing start with
  | nil => exact ⟨start, rfl, by simp⟩
  | cons v vs ih =>
    obtain ⟨n, rfl⟩ := h v List.mem_cons_self
    obtain ⟨m, hm, hsum⟩ := ih (fun v hv => h v (List.mem_cons_of_mem _ hv)) (start + n)
    refine ⟨m, ?_, ?_⟩
    · rw [List.foldlM_cons, plus_int]
      exact hm
    · have hsummand : summand key (.int n) = some (Decimal.ofInt n) := by
        rw [summand, if_neg hkey]
        rfl
      rw [List.filterMap_cons, hsummand, List.map_cons, List.sum_cons, Decimal.value_ofInt, hsum]
      push_cast
      rw [Option.getD_some, add_assoc]

/-- What is gathered from the items of a list comes in their order. -/
private theorem perm_gather {α β : Type} {f : α → Option (List β)} {g : List α → Option (List β)}
    (hcons : ∀ x xs, g (x :: xs) = (f x).bind fun ys => (g xs).map (ys ++ ·)) {xs xs' : List α}
    (h : xs.Perm xs') {ys : List β} (hys : g xs = some ys) : ∃ ys', g xs' = some ys' ∧ ys.Perm ys' := by
  induction h generalizing ys with
  | nil => exact ⟨ys, hys, .refl _⟩
  | cons x _ ih =>
    rw [hcons] at hys ⊢
    obtain ⟨own, hown, hys⟩ := Option.bind_eq_some_iff.mp hys
    obtain ⟨rest, hrest, rfl⟩ := Option.map_eq_some_iff.mp hys
    obtain ⟨rest', hrest', hperm⟩ := ih hrest
    exact ⟨own ++ rest', by rw [hown, hrest']; rfl, hperm.append_left own⟩
  | swap x y xs =>
    rw [hcons, hcons] at hys ⊢
    obtain ⟨own, hown, hys⟩ := Option.bind_eq_some_iff.mp hys
    obtain ⟨both, hboth, rfl⟩ := Option.map_eq_some_iff.mp hys
    obtain ⟨next, hnext, hboth⟩ := Option.bind_eq_some_iff.mp hboth
    obtain ⟨rest, hrest, rfl⟩ := Option.map_eq_some_iff.mp hboth
    refine ⟨next ++ (own ++ rest), by rw [hown, hnext, hrest]; rfl, ?_⟩
    rw [← List.append_assoc, ← List.append_assoc]
    exact List.perm_append_comm.append_right rest
  | trans _ _ ih ih' =>
    obtain ⟨ys', hys', hperm⟩ := ih hys
    obtain ⟨ys'', hys'', hperm'⟩ := ih' hys'
    exact ⟨ys'', hys'', hperm.trans hperm'⟩

private theorem allEntries_perm (h : us.Perm usages) {entries : List UsageValue}
    (he : allEntries us = some entries) : ∃ entries', allEntries usages = some entries' ∧ entries.Perm entries' := by
  apply perm_gather (f := fun u => iterate (field u "entries")) _ h he
  intro u us
  rw [allEntries]
  cases iterate (field u "entries") with
  | none => rfl
  | some xs => cases allEntries us <;> rfl

private theorem chargesOf_perm {entries entries' : List UsageValue} (h : entries.Perm entries')
    {charges : List (Decimal × UsageValue)} (hc : chargesOf resolver entries = some charges) :
    ∃ charges', chargesOf resolver entries' = some charges' ∧ charges.Perm charges' := by
  apply perm_gather (f := fun entry => (chargeOf resolver entry).map Option.toList) _ h hc
  intro entry entries
  rw [chargesOf]
  cases chargeOf resolver entry with
  | none => rfl
  | some charge => cases chargesOf resolver entries <;> rfl

/-- Values that are whole numbers, and amounts that fit together, can be summed in any order. -/
theorem Addable.summing (h : Addable resolver usages) : Summing resolver usages := by
  obtain ⟨entries, charges, hentries, hcharges, hfinite, hfit⟩ := h.charges
  refine ⟨?_, ?_, allEntries_isSome.mp (by rw [hentries]; rfl), ?_, h.summary⟩
  · intro key hkey hne v hv
    by_cases hmoney : key ∈ moneyKeys
    · obtain ⟨hall, -⟩ := h.amounts key hmoney hne
      rw [summand, if_pos hmoney]
      exact hall v hv
    · obtain ⟨n, rfl⟩ := h.counters key hkey hmoney hne v hv
      refine ⟨Decimal.ofInt n, by rw [summand, if_neg hmoney]; rfl, ?_⟩
      rw [Decimal.value_ofInt]
      rfl
  · intro key hkey hne us hperm
    unfold AddsUp
    split
    · rename_i hmoney
      obtain ⟨hall, hfit⟩ := h.amounts key hmoney hne
      have hvalues : ∀ d ∈ summands key us, d.value.isSome = true := by
        intro d hd
        obtain ⟨v, hv, hsummand⟩ := List.mem_filterMap.mp ((summands_perm hperm).mem_iff.mp hd)
        obtain ⟨d', hd', hvalue⟩ := hall v hv
        rw [summand, if_pos hmoney, hd'] at hsummand
        cases hsummand
        exact hvalue
      exact Decimal.foldlM_rewritten_exact (fun _ _ => value_rewritten) (forall₂_value hvalues)
        (hfit.perm ((summands_perm hperm).map _))
    · rename_i hmoney
      have hints : ∀ v ∈ valuesOf key us, ∃ n : ℤ, v = .int n :=
        fun v hv => h.counters key hkey hmoney hne v ((hperm.filterMap _).mem_iff.mp hv)
      have hnumeric : (valuesOf key us).filter isNumeric = valuesOf key us := by
        apply List.filter_eq_self.mpr
        intro v hv
        obtain ⟨n, rfl⟩ := hints v hv
        rfl
      obtain ⟨m, hm, hsum⟩ := fold_ints hints hmoney 0
      refine ⟨.int m, by rw [hnumeric]; exact hm, ?_⟩
      rw [number, hsum, Int.cast_zero, zero_add]
      rfl
  · intro us hperm entries' hentries'
    obtain ⟨entries'', he, hperm'⟩ := allEntries_perm hperm hentries'
    rw [hentries] at he
    cases he
    obtain ⟨charges', hcharges', hperm''⟩ := chargesOf_perm hperm'.symm hcharges
    have hvalues : ∀ d ∈ charges'.map Prod.fst, d.value.isSome = true := by
      intro d hd
      obtain ⟨c, hc, rfl⟩ := List.mem_map.mp hd
      exact hfinite c (hperm''.mem_iff.mpr hc)
    have hfit' : Decimal.FitTogether ((charges'.map Prod.fst).map fun d => d.value.getD 0) := by
      rw [List.map_map]
      exact hfit.perm (hperm''.symm.map _)
    obtain ⟨amount, hamount, -⟩ := Decimal.foldlM_add_exact (forall₂_value hvalues) hfit'
    obtain ⟨s, hs⟩ := Costing.exists_loop (s := {}) hcharges' hamount
    rw [hs]
    rfl

/-- Exactly when the totals are the sums in any order. -/
theorem sums_in_any_order_iff (resolver : Option StaticTablePricing) {usages : List Usage}
    (hs : ∀ u ∈ usages, IsStored u) : SumsInAnyOrder resolver usages ↔ Summing resolver usages :=
  ⟨summing_of_sums hs, sums_of_summing hs⟩

end

private def counted : List Usage := [[("tokens", .int 2)], [("tokens", .int 3)]]

private theorem values_counted {key : String} (h : summands key counted ≠ []) : key = "tokens" := by
  by_contra hne
  apply h
  have hnone (n : ℤ) : Dict.get? [("tokens", UsageValue.int n)] key = none := by
    rw [Dict.get?, if_neg fun he => hne he.symm]
    rfl
  rw [summands, counted, valuesOf, List.filterMap_cons, hnone, List.filterMap_cons, hnone]
  rfl

private theorem isStored_tokens {n : ℤ} (hmoney : (UsageValue.int n).money ≠ none) : IsStored [("tokens", .int n)] := by
  have hget {key : String} {v : UsageValue} (h : Dict.get? [("tokens", UsageValue.int n)] key = some v) :
      v = .int n := by
    have hin := Dict.mem_of_get? h
    rw [List.mem_singleton] at hin
    exact (Prod.mk.inj hin).2
  refine ⟨by simp, fun key v h => ?_, fun key v h _ => ?_⟩
  · rw [hget h]
    rfl
  · rw [hget h]
    exact hmoney

theorem sums_counted : SumsInAnyOrder none counted := by
  have hstored : ∀ u ∈ counted, IsStored u := by
    intro u hu
    simp only [counted, List.mem_cons, List.not_mem_nil, or_false] at hu
    rcases hu with rfl | rfl
    · exact isStored_tokens (fun hnone => by cases hnone)
    · exact isStored_tokens (fun hnone => by cases hnone)
  have hsummable : Addable none counted := by
    refine ⟨?_, ?_, ?_, fun hne => absurd (values_counted hne) (by decide)⟩
    · intro key _ _ hne v hv
      rw [values_counted hne] at hv
      have hin : v ∈ [UsageValue.int 2, .int 3] := hv
      simp only [List.mem_cons, List.not_mem_nil, or_false] at hin
      rcases hin with rfl | rfl
      · exact ⟨2, rfl⟩
      · exact ⟨3, rfl⟩
    · intro key hkey hne
      rw [values_counted hne] at hkey
      exact absurd hkey (by decide)
    · exact ⟨[], [], rfl, rfl, by simp, 0, by decide, by decide, by simp, by norm_num [Decimal.prec]⟩
  exact (sums_in_any_order_iff none hstored).mpr hsummable.summing

/-- An attempt recorded `None` where the next one recorded a number: there is no total. -/
theorem none_then_number :
    [[[("tokens", UsageValue.null)]], [[("tokens", .int 5)]]].mapM (attemptUsage none) =
      some [[("tokens", .null)], [("tokens", .int 5)]] ∧
    sumUsage none [[("tokens", .null)], [("tokens", .int 5)]] = none ∧
    ¬ SumsInAnyOrder none [[("tokens", .null)], [("tokens", .int 5)]] := by
  have hnone : sumUsage none [[("tokens", .null)], [("tokens", .int 5)]] = none := rfl
  refine ⟨rfl, hnone, fun h => ?_⟩
  obtain ⟨total, htotal, -⟩ := h _ (List.Perm.refl _)
  rw [hnone] at htotal
  cases htotal

end Qraft
