import Qraft.Usage.Aggregate
import Qraft.Usage.Currency

/-! The cost of an aggregate against the costs of its calls. -/
namespace Qraft
open UsageValue

/-- The entry a call leaves in the column. -/
def callEntries (resolver : Option StaticTablePricing) (call : Usage) : Option (List UsageValue) :=
  (usageEntry resolver call).map fun entry => entry.toList.map fun e => .dict (encodeFields e)

def NamesModel (call : Usage) : Prop := (field call "model").truthy = true

instance : DecidablePred NamesModel := fun call =>
  inferInstanceAs (Decidable ((field call "model").truthy = true))

/-- A call's own cost: its entry's, or the one it gives without an entry. -/
def callCharge (resolver : Option StaticTablePricing) (call : Usage) : Option (Option Decimal) :=
  (usageEntry resolver call).bind fun
    | none => some (field call "cost").money
    | some entry => (entryCharge resolver (encodeFields entry)).map fun charge => charge.map Charge.cost

def callCost (resolver : Option StaticTablePricing) (call : Usage) : Option ℚ :=
  (callCharge resolver call).bind fun charge => charge.elim (some 0) Decimal.value

def callAmount (resolver : Option StaticTablePricing) (call : Usage) : Option ℚ :=
  (recordUsage resolver [] call).bind fun u => (usageCost resolver u).bind fun s => s.amount.value

/-- The keywords of a call; the entries are not its to write. -/
structure IsCall (call : Usage) : Prop where
  nodup : (call.map Prod.fst).Nodup
  entries : Dict.get? call "entries" = none

/-- A value that `cost` or a sum takes for an amount. -/
def IsAmount (v : UsageValue) : Prop := v.isNumeric = true ∨ v.money ≠ none

/-- A list of calls of which each that gives a cost names a model. -/
def ModelsCosts (calls : List Usage) : Prop :=
  ∀ call ∈ calls, IsAmount (field call "cost") → NamesModel call

/-- A list of calls of which none names a model and each cost is an amount. -/
def CostsOnly (calls : List Usage) : Prop :=
  ∀ call ∈ calls, ¬ NamesModel call ∧ ∀ v, Dict.get? call "cost" = some v → v.money ≠ none

def HasEntries (u : Usage) (xs : List UsageValue) : Prop :=
  (field u "entries" = .null ∧ xs = []) ∨ field u "entries" = .list xs

def HasCost (u : Usage) (q : ℚ) : Prop :=
  (Dict.get? u "cost" = none ∧ q = 0) ∨
    ∃ v d, Dict.get? u "cost" = some v ∧ v.money = some d ∧ d.value = some q

def callsEntries (resolver : Option StaticTablePricing) (calls : List Usage) : List UsageValue :=
  calls.flatMap fun call => (callEntries resolver call).getD []

def callsCosts (resolver : Option StaticTablePricing) (calls : List Usage) : List ℚ :=
  calls.map fun call => (callCost resolver call).getD 0

/-- What a usage object keeps of the calls it is made of. -/
structure Ledger (resolver : Option StaticTablePricing) (calls : List Usage) (u : Usage) : Prop where
  nodup : (u.map Prod.fst).Nodup
  accepted : ∀ call ∈ calls, (callEntries resolver call).isSome = true
  entries : HasEntries u (callsEntries resolver calls)
  unpaid : (∀ call ∈ calls, ¬ IsAmount (field call "cost")) → ¬ IsAmount (field u "cost")
  paid : CostsOnly calls → (∀ call ∈ calls, (callCost resolver call).isSome = true) →
    Decimal.FitTogether (callsCosts resolver calls) → HasCost u (callsCosts resolver calls).sum

section
variable {resolver : Option StaticTablePricing} {calls : List Usage} {call stored u : Usage}

theorem HasEntries.iterate {xs : List UsageValue} (h : HasEntries u xs) :
    iterate (field u "entries") = some xs := by
  rcases h with ⟨hnull, rfl⟩ | hlist
  · rw [hnull]
    rfl
  · rw [hlist, iterate_list]

theorem usageEntry_isSome_iff {entry : Option Usage} (h : usageEntry resolver call = some entry) :
    entry.isSome = true ↔ NamesModel call := by
  unfold usageEntry at h
  unfold NamesModel
  split at h
  · rename_i hno
    cases h
    simpa using hno
  · rename_i hyes
    have hmodel : (field call "model").truthy = true := by simpa using hyes
    have hentry : entry.isSome = true := by
      split at h
      · cases h
        rfl
      · obtain ⟨price, -, h⟩ := Option.bind_eq_some_iff.mp h
        cases price with
        | none =>
          cases h
          rfl
        | some price =>
          obtain ⟨amount, -, h⟩ := Option.bind_eq_some_iff.mp h
          cases h
          rfl
    exact iff_of_true hentry hmodel

/-- The merge of a call: what it does to a key other than the entries. -/
theorem get?_recordUsage (hcall : IsCall call) (h : recordUsage resolver stored call = some u)
    {key : String} (hkey : key ≠ "entries") :
    (Dict.get? call key = none → Dict.get? u key = (Dict.get? stored key).map encode) ∧
      ∀ v, Dict.get? call key = some v →
        ∃ w, mergeField key (Dict.get? stored key) v = some w ∧ Dict.get? u key = some w.encode := by
  obtain ⟨entry, -, h⟩ := Option.bind_eq_some_iff.mp h
  exact get?_lockedUsageUpdate hcall.nodup h fun _ => hkey

/-- The entry of a call goes behind those of the attempt. -/
theorem recordUsage_entries (hcall : IsCall call) (h : recordUsage resolver stored call = some u)
    {xs : List UsageValue} (hstored : HasEntries stored xs) (hencoded : encodeList xs = xs) :
    ∃ ys, callEntries resolver call = some ys ∧ HasEntries u (xs ++ ys) ∧
      encodeList (xs ++ ys) = xs ++ ys := by
  obtain ⟨entry, hentry, h⟩ := Option.bind_eq_some_iff.mp h
  obtain ⟨merged, hmerged, rfl⟩ := Option.map_eq_some_iff.mp h
  obtain ⟨usage, husage, hrest⟩ := Option.bind_eq_some_iff.mp hmerged
  have hkept : field usage "entries" = field stored "entries" := by
    rw [field, (Dict.get?_updateM hcall.nodup husage "entries").1 hcall.entries, field]
  have hentries : HasEntries usage xs := by
    rw [HasEntries, hkept]
    exact hstored
  rw [callEntries, hentry]
  cases entry with
  | none =>
    cases hrest
    refine ⟨[], rfl, ?_, by rw [List.append_nil]; exact hencoded⟩
    rw [List.append_nil, HasEntries, field_encodeFields]
    rcases hentries with ⟨hnull, hnil⟩ | hlist
    · rw [hnull]
      exact .inl ⟨rfl, hnil⟩
    · rw [hlist]
      exact .inr (congrArg UsageValue.list hencoded)
  | some entry =>
    obtain ⟨xs', hxs', hset⟩ := Option.bind_eq_some_iff.mp hrest
    rw [hentries.iterate] at hxs'
    cases hxs'
    cases hset
    have hboth : encodeList (xs ++ [.dict entry]) = xs ++ [.dict (encodeFields entry)] := by
      rw [encodeList_append, hencoded]
      rfl
    refine ⟨[.dict (encodeFields entry)], rfl, .inr ?_, ?_⟩
    · rw [field_encodeFields, field_of_get? (Dict.get?_set_self _ _ _), ← hboth]
      rfl
    · rw [← hboth, encodeList_encodeList]

theorem recordUsage_nodup (hstored : (stored.map Prod.fst).Nodup)
    (h : recordUsage resolver stored call = some u) : (u.map Prod.fst).Nodup := by
  obtain ⟨entry, -, h⟩ := Option.bind_eq_some_iff.mp h
  obtain ⟨merged, hmerged, rfl⟩ := Option.map_eq_some_iff.mp h
  obtain ⟨usage, husage, hrest⟩ := Option.bind_eq_some_iff.mp hmerged
  rw [keys_encodeFields]
  have hn := Dict.nodup_updateM hstored husage
  cases entry with
  | none =>
    cases hrest
    exact hn
  | some entry =>
    obtain ⟨xs, -, hset⟩ := Option.bind_eq_some_iff.mp hrest
    cases hset
    exact Dict.nodup_set hn _ _

theorem encode_not_amount {v : UsageValue} (h : ¬ IsAmount v) : ¬ IsAmount v.encode := by
  cases v with
  | decimal d => exact absurd (.inl rfl) h
  | list xs => exact fun hor => hor.elim Bool.noConfusion fun hne => hne rfl
  | dict fields => exact fun hor => hor.elim Bool.noConfusion fun hne => hne rfl
  | null => exact h
  | bool b => exact h
  | int n => exact h
  | num negative c e => exact h
  | str s => exact h

theorem money_encode {v : UsageValue} {d : Decimal} (h : v.money = some d) : v.encode.money = some d := by
  cases v with
  | decimal d' =>
    have hrange := inRange_of_money h
    obtain ⟨hd, -⟩ := Option.filter_eq_some_iff.mp h
    cases hd
    exact money_moneyText hrange
  | list xs => cases h
  | dict fields => cases h
  | null => cases h
  | bool b => cases h
  | int n => exact h
  | num negative c e => exact h
  | str s => exact h

private theorem null_not_amount : ¬ IsAmount .null := fun h => h.elim Bool.noConfusion fun hne => hne rfl

/-- A value under `cost` that is no amount replaces what is there. -/
private theorem mergeField_not_amount {current : Option UsageValue} {v w : UsageValue} (hv : ¬ IsAmount v)
    (h : mergeField "cost" current v = some w) : w = v := by
  have hmoney : v.money = none := not_not.mp fun hne => hv (.inr hne)
  have hnumeric : v.isNumeric = false := Bool.eq_false_iff.mpr fun hn => hv (.inl hn)
  have hnone : moneyOf "cost" v = none := by
    rw [moneyOf, if_pos (by decide), hmoney]
  unfold mergeField at h
  rw [hnone, hnumeric] at h
  cases h
  rfl

private theorem recordUsage_unpaid (hcall : IsCall call) (h : recordUsage resolver stored call = some u)
    (hstored : ¬ IsAmount (field stored "cost")) (hno : ¬ IsAmount (field call "cost")) :
    ¬ IsAmount (field u "cost") := by
  obtain ⟨hout, hin⟩ := get?_recordUsage hcall h (by decide : "cost" ≠ "entries")
  cases hv : Dict.get? call "cost" with
  | none =>
    have hu : field u "cost" = (field stored "cost").encode := by
      rw [field, hout hv, field]
      cases Dict.get? stored "cost" with
      | none => rfl
      | some v => rfl
    rw [hu]
    exact encode_not_amount hstored
  | some v =>
    obtain ⟨w, hw, hu⟩ := hin v hv
    rw [field_of_get? hv] at hno
    rw [field_of_get? hu, mergeField_not_amount hno hw]
    exact encode_not_amount hno

/-- The cost of a call without a model is the one it gives. -/
private theorem callCost_of_noModel (hno : ¬ NamesModel call)
    (hsome : (callEntries resolver call).isSome = true) :
    callCost resolver call = ((field call "cost").money).elim (some 0) Decimal.value := by
  obtain ⟨ys, hys⟩ := Option.isSome_iff_exists.mp hsome
  obtain ⟨entry, hentry, -⟩ := Option.map_eq_some_iff.mp hys
  cases entry with
  | none => rw [callCost, callCharge, hentry, Option.bind_some, Option.bind_some]
  | some entry => exact absurd ((usageEntry_isSome_iff hentry).mp rfl) hno

private theorem moneyOf_cost {v : UsageValue} {d : Decimal} (h : v.money = some d) :
    moneyOf "cost" v = some d := by
  rw [moneyOf, if_pos (by decide), h]

/-- An amount under `cost` is added to what is there. -/
private theorem recordUsage_paid (hcall : IsCall call) (h : recordUsage resolver stored call = some u)
    {p q : ℚ} (hstored : HasCost stored p)
    (honly : ∀ v, Dict.get? call "cost" = some v → v.money ≠ none)
    (hq : ((field call "cost").money).elim (some 0) Decimal.value = some q)
    (hfits : Decimal.Fits (p + q)) : HasCost u (p + q) := by
  obtain ⟨hout, hin⟩ := get?_recordUsage hcall h (by decide : "cost" ≠ "entries")
  cases hv : Dict.get? call "cost" with
  | none =>
    rw [field_of_none hv] at hq
    have hzero : q = 0 := (Option.some.inj hq).symm
    rw [hzero, add_zero]
    rcases hstored with ⟨hnone, hp⟩ | ⟨v, d, hget, hmoney, hvalue⟩
    · refine .inl ⟨?_, hp⟩
      rw [hout hv, hnone]
      rfl
    · refine .inr ⟨v.encode, d, ?_, money_encode hmoney, hvalue⟩
      rw [hout hv, hget]
      rfl
  | some v =>
    obtain ⟨increment, hincrement⟩ := Option.ne_none_iff_exists'.mp (honly v hv)
    obtain ⟨w, hw, hu⟩ := hin v hv
    rw [field_of_get? hv, hincrement] at hq
    unfold mergeField at hw
    rw [moneyOf_cost hincrement] at hw
    rcases hstored with ⟨hnone, rfl⟩ | ⟨old, d, hget, hmoney, hvalue⟩
    · rw [hnone] at hw
      cases hw
      refine .inr ⟨_, increment, hu, money_moneyText (inRange_of_money hincrement), ?_⟩
      rw [zero_add]
      exact hq
    · obtain ⟨sum, hsum, hsumValue⟩ := Decimal.add_exact hvalue hq hfits
      rw [hget, Option.getD_some] at hw
      dsimp only at hw
      rw [hmoney] at hw
      dsimp only at hw
      rw [hsum] at hw
      cases hw
      exact .inr ⟨_, sum, hu, money_moneyText (Decimal.inRange_of_add hsum), hsumValue⟩

private theorem fits_append {ps qs : List ℚ} (h : Decimal.FitTogether (ps ++ qs)) :
    Decimal.Fits (ps.sum + qs.sum) := by
  have hparts : Decimal.FitTogether [ps, qs].flatten := by simpa using h
  exact hparts.sums.pair

/-- One more call of an attempt. -/
private theorem Ledger.record (hl : Ledger resolver calls stored)
    (hencoded : encodeList (callsEntries resolver calls) = callsEntries resolver calls) (hcall : IsCall call)
    (h : recordUsage resolver stored call = some u) : Ledger resolver (calls ++ [call]) u ∧
      encodeList (callsEntries resolver (calls ++ [call])) = callsEntries resolver (calls ++ [call]) := by
  obtain ⟨ys, hys, hentries, hencoded'⟩ := recordUsage_entries hcall h hl.entries hencoded
  have hall : callsEntries resolver (calls ++ [call]) = callsEntries resolver calls ++ ys := by
    simp [callsEntries, hys]
  rw [hall]
  refine ⟨⟨recordUsage_nodup hl.nodup h, ?_, ?_, ?_, ?_⟩, hencoded'⟩
  · intro c hc
    rcases List.mem_append.mp hc with hc | hc
    · exact hl.accepted c hc
    · rw [List.mem_singleton.mp hc, hys]
      rfl
  · rw [hall]
    exact hentries
  · intro hno
    exact recordUsage_unpaid hcall h (hl.unpaid fun c hc => hno c (List.mem_append_left _ hc))
      (hno call (List.mem_append_right _ (List.mem_singleton_self _)))
  · intro honly hsome hfit
    have hlast : call ∈ calls ++ [call] := List.mem_append_right _ (List.mem_singleton_self _)
    obtain ⟨q, hq⟩ := Option.isSome_iff_exists.mp (hsome call hlast)
    have hcosts : callsCosts resolver (calls ++ [call]) = callsCosts resolver calls ++ [q] := by
      simp [callsCosts, hq]
    rw [hcosts] at hfit ⊢
    have hfits := fits_append hfit
    rw [List.sum_singleton] at hfits
    rw [List.sum_append, List.sum_singleton]
    have hpaid := hl.paid (fun c hc => honly c (List.mem_append_left _ hc))
      (fun c hc => hsome c (List.mem_append_left _ hc)) (hfit.sublist (List.sublist_append_left _ _))
    have haccepted : (callEntries resolver call).isSome = true := by
      rw [hys]
      rfl
    rw [callCost_of_noModel (honly call hlast).1 haccepted] at hq
    exact recordUsage_paid hcall h hpaid (honly call hlast).2 hq hfits

private theorem ledger_foldlM {prior : List Usage} (hl : Ledger resolver prior stored)
    (hencoded : encodeList (callsEntries resolver prior) = callsEntries resolver prior)
    (hcalls : ∀ call ∈ calls, IsCall call) (h : calls.foldlM (recordUsage resolver) stored = some u) :
    Ledger resolver (prior ++ calls) u := by
  induction calls generalizing prior stored with
  | nil =>
    cases h
    rw [List.append_nil]
    exact hl
  | cons call calls ih =>
    rw [List.foldlM_cons] at h
    obtain ⟨next, hnext, hrest⟩ := Option.bind_eq_some_iff.mp h
    obtain ⟨hl', hencoded'⟩ := hl.record hencoded (hcalls call List.mem_cons_self) hnext
    have hall := ih hl' hencoded' (fun c hc => hcalls c (List.mem_cons_of_mem _ hc)) hrest
    rw [List.append_assoc] at hall
    exact hall

/-- The usage column of an attempt. -/
theorem ledger_attempt (hcalls : ∀ call ∈ calls, IsCall call) (h : attemptUsage resolver calls = some u) :
    Ledger resolver calls u := by
  have hempty : Ledger resolver [] [] := by
    refine ⟨List.nodup_nil, fun c hc => absurd hc List.not_mem_nil, .inl ⟨rfl, rfl⟩,
      fun _ => null_not_amount, fun _ _ _ => .inl ⟨rfl, rfl⟩⟩
  exact ledger_foldlM hempty rfl hcalls h

private theorem sumTotals_unpaid {totals totals' usage : Usage} (hn : (usage.map Prod.fst).Nodup)
    (h : Dict.updateM sumField totals (counters usage) = some totals')
    (htotals : ¬ IsAmount (field totals "cost")) (husage : ¬ IsAmount (field usage "cost")) :
    ¬ IsAmount (field totals' "cost") := by
  obtain ⟨hout, hin⟩ := get?_sumTotals hn h (by decide : "cost" ≠ "entries")
  cases hv : Dict.get? usage "cost" with
  | none =>
    rw [field, hout hv, ← field]
    exact htotals
  | some v =>
    obtain ⟨w, hw, htotal⟩ := hin v hv
    rw [field_of_get? hv] at husage
    have hmoney : v.money = none := not_not.mp fun hne => husage (.inr hne)
    have hnumeric : v.isNumeric = false := Bool.eq_false_iff.mpr fun hn => husage (.inl hn)
    have hnone : moneyOf "cost" v = none := by
      rw [moneyOf, if_pos (by decide), hmoney]
    rw [sumField, hnone, hnumeric] at hw
    cases hw
    rw [field_of_get? htotal]
    exact husage

/-- A total that counts for nothing where it is nothing. -/
private theorem counted_total {d : Decimal} {q : ℚ} (h : d.value = some q) :
    (((some d).filter fun d => (UsageValue.decimal d).truthy).getD (Decimal.ofInt 0)).value = some q := by
  cases d with
  | finite negative c e =>
    by_cases hc : c = 0
    · subst hc
      rw [← h]
      simp [Option.filter, UsageValue.truthy, Decimal.ofInt, Decimal.value, Decimal.signed]
    · have htruthy : (UsageValue.decimal (.finite negative c e)).truthy = true := decide_eq_true hc
      rw [Option.filter_some, if_pos htruthy]
      exact h
  | infinity n => cases h
  | nan n t x => cases h

private theorem sumTotals_paid {totals totals' usage : Usage} (hn : (usage.map Prod.fst).Nodup)
    (h : Dict.updateM sumField totals (counters usage) = some totals') {p q : ℚ} (htotals : HasCost totals p)
    (husage : HasCost usage q) (hfits : Decimal.Fits (p + q)) : HasCost totals' (p + q) := by
  obtain ⟨hout, hin⟩ := get?_sumTotals hn h (by decide : "cost" ≠ "entries")
  rcases husage with ⟨hnone, rfl⟩ | ⟨v, increment, hv, hincrement, hvalue⟩
  · rw [add_zero, HasCost, hout hnone]
    exact htotals
  · obtain ⟨w, hw, htotal⟩ := hin v hv
    unfold sumField at hw
    rw [moneyOf_cost hincrement] at hw
    dsimp only at hw
    obtain ⟨total, htotalEq, htotalValue⟩ : ∃ total, (((Dict.get? totals "cost").getD .null).money.filter
        fun d => (UsageValue.decimal d).truthy).getD (Decimal.ofInt 0) = total ∧ total.value = some p := by
      refine ⟨_, rfl, ?_⟩
      rcases htotals with ⟨hnone, rfl⟩ | ⟨old, d, hget, hmoney, hold⟩
      · rw [hnone]
        simp [UsageValue.money, UsageValue.numeral, Decimal.ofInt, Decimal.value, Decimal.signed]
      · rw [hget, Option.getD_some, hmoney]
        exact counted_total hold
    obtain ⟨sum, hsum, hsumValue⟩ := Decimal.add_exact htotalValue hvalue hfits
    rw [htotalEq, hsum] at hw
    cases hw
    exact .inr ⟨_, sum, htotal, money_moneyText (Decimal.inRange_of_add hsum), hsumValue⟩

/-- What the totals keep of the calls that went into them. -/
private structure Totals (resolver : Option StaticTablePricing) (calls : List Usage) (totals : Usage) :
    Prop where
  nodup : (totals.map Prod.fst).Nodup
  entries : Dict.get? totals "entries" = none
  unpaid : (∀ call ∈ calls, ¬ IsAmount (field call "cost")) → ¬ IsAmount (field totals "cost")
  paid : CostsOnly calls → (∀ call ∈ calls, (callCost resolver call).isSome = true) →
    Decimal.FitTogether (callsCosts resolver calls) → HasCost totals (callsCosts resolver calls).sum

private theorem Totals.add {prior : List Usage} {totals totals' usage : Usage}
    (ht : Totals resolver prior totals) (hl : Ledger resolver calls usage)
    (h : Dict.updateM sumField totals (counters usage) = some totals') :
    Totals resolver (prior ++ calls) totals' := by
  refine ⟨Dict.nodup_updateM ht.nodup h, (get?_sumTotals_entries hl.nodup h).trans ht.entries, ?_, ?_⟩
  · intro hno
    exact sumTotals_unpaid hl.nodup h (ht.unpaid fun c hc => hno c (List.mem_append_left _ hc))
      (hl.unpaid fun c hc => hno c (List.mem_append_right _ hc))
  · intro honly hsome hfit
    have hcosts : callsCosts resolver (prior ++ calls) =
        callsCosts resolver prior ++ callsCosts resolver calls := List.map_append
    rw [hcosts] at hfit ⊢
    rw [List.sum_append]
    refine sumTotals_paid hl.nodup h ?_ ?_ (fits_append hfit)
    · exact ht.paid (fun c hc => honly c (List.mem_append_left _ hc))
        (fun c hc => hsome c (List.mem_append_left _ hc)) (hfit.sublist (List.sublist_append_left _ _))
    · exact hl.paid (fun c hc => honly c (List.mem_append_right _ hc))
        (fun c hc => hsome c (List.mem_append_right _ hc)) (hfit.sublist (List.sublist_append_right _ _))

private theorem totals_foldlM {callss : List (List Usage)} {us : List Usage}
    (hl : List.Forall₂ (Ledger resolver) callss us) {prior : List Usage} {totals totals' : Usage}
    (ht : Totals resolver prior totals)
    (h : us.foldlM (fun totals usage => Dict.updateM sumField totals (counters usage)) totals = some totals') :
    Totals resolver (prior ++ callss.flatten) totals' := by
  induction hl generalizing prior totals with
  | nil =>
    cases h
    rw [List.flatten_nil, List.append_nil]
    exact ht
  | cons hledger _ ih =>
    rw [List.foldlM_cons] at h
    obtain ⟨next, hnext, hrest⟩ := Option.bind_eq_some_iff.mp h
    have hall := ih (ht.add hledger hnext) hrest
    rw [List.append_assoc] at hall
    exact hall

private theorem allEntries_ledger {callss : List (List Usage)} {us : List Usage}
    (hl : List.Forall₂ (Ledger resolver) callss us) :
    allEntries us = some (callsEntries resolver callss.flatten) := by
  induction hl with
  | nil => rfl
  | @cons calls usage callss us hledger _ ih =>
    have hall : callsEntries resolver (calls :: callss).flatten =
        callsEntries resolver calls ++ callsEntries resolver callss.flatten := by
      rw [List.flatten_cons, callsEntries, List.flatMap_append]
      rfl
    rw [allEntries, hledger.entries.iterate, ih, hall]
    rfl

/-- The totals with their entries and their cost summary, as the ledger of all the calls. -/
private theorem Totals.ledger {totals : Usage} (ht : Totals resolver calls totals)
    (haccepted : ∀ call ∈ calls, (callEntries resolver call).isSome = true) :
    Ledger resolver calls (withEntries totals (callsEntries resolver calls)) := by
  have hcost : Dict.get? (withEntries totals (callsEntries resolver calls)) "cost" =
      Dict.get? totals "cost" := by
    unfold withEntries
    split
    · rfl
    · exact Dict.get?_set_ne _ _ (by decide)
  refine ⟨?_, haccepted, ?_, ?_, ?_⟩
  · unfold withEntries
    split
    · exact ht.nodup
    · exact Dict.nodup_set ht.nodup _ _
  · unfold withEntries
    split
    · rename_i hempty
      exact .inl ⟨field_of_none ht.entries, List.isEmpty_iff.mp hempty⟩
    · exact .inr (field_of_get? (Dict.get?_set_self _ _ _))
  · rw [field, hcost, ← field]
    exact ht.unpaid
  · intro honly hsome hfit
    rw [HasCost, hcost]
    exact ht.paid honly hsome hfit

/-- Another key changes nothing. -/
private theorem Ledger.set {key : String} (hl : Ledger resolver calls u) (hentries : key ≠ "entries")
    (hcost : key ≠ "cost") (v : UsageValue) : Ledger resolver calls (Dict.set u key v) := by
  have hfield {k : String} (hk : key ≠ k) : field (Dict.set u key v) k = field u k := by
    rw [field, Dict.get?_set_ne _ _ hk.symm, field]
  refine ⟨Dict.nodup_set hl.nodup _ _, hl.accepted, ?_, ?_, ?_⟩
  · rw [HasEntries, hfield hentries]
    exact hl.entries
  · rw [hfield hcost]
    exact hl.unpaid
  · intro honly hsome hfit
    rw [HasCost, Dict.get?_set_ne _ _ hcost.symm]
    exact hl.paid honly hsome hfit

/-- The sum of usage objects keeps what each of them does. -/
theorem ledger_sum {callss : List (List Usage)} {us : List Usage}
    (hl : List.Forall₂ (Ledger resolver) callss us) (h : sumUsage resolver us = some u) :
    Ledger resolver callss.flatten u := by
  have hn : ∀ usage ∈ us, (usage.map Prod.fst).Nodup := by
    intro usage hin
    clear h
    induction hl with
    | nil => cases hin
    | cons hledger _ ih =>
      rcases List.mem_cons.mp hin with rfl | hin
      · exact hledger.nodup
      · exact ih hin
  have haccepted : ∀ call ∈ callss.flatten, (callEntries resolver call).isSome = true := by
    clear h hn
    induction hl with
    | nil => exact fun c hc => absurd hc List.not_mem_nil
    | cons hledger _ ih =>
      intro c hc
      rcases List.mem_append.mp hc with hc | hc
      · exact hledger.accepted c hc
      · exact ih c hc
  have hempty : Totals resolver [] [] :=
    ⟨List.nodup_nil, rfl, fun _ => null_not_amount, fun _ _ _ => .inl ⟨rfl, rfl⟩⟩
  obtain ⟨⟨totals, entries⟩, hitems, h⟩ := Option.bind_eq_some_iff.mp h
  rw [sumItems_eq hn, allEntries_ledger hl, Option.bind_some] at hitems
  obtain ⟨totals', htotals, he⟩ := Option.map_eq_some_iff.mp hitems
  cases he
  have hledger := (totals_foldlM hl hempty htotals).ledger haccepted
  obtain ⟨summary, -, h⟩ := Option.bind_eq_some_iff.mp h
  cases summary with
  | none =>
    cases h
    exact hledger
  | some summary =>
    cases h
    exact hledger.set (by decide) (by decide) _

private theorem field_update {d e : Usage} (he : (e.map Prod.fst).Nodup) {key : String}
    (hkey : Dict.get? e key = none) : field (Dict.update d e) key = field d key := by
  rw [field, Dict.get?_update he, hkey]
  rfl

theorem truthy_encode {v : UsageValue} (h : v.truthy = true) : v.encode.truthy = true := by
  cases v with
  | decimal d => exact truthy_moneyText d
  | list xs =>
    cases xs with
    | nil => cases h
    | cons x xs => rfl
  | dict fields =>
    cases fields with
    | nil => cases h
    | cons item rest => rfl
  | null => exact h
  | bool b => exact h
  | int n => exact h
  | num negative c e => exact h
  | str s => exact h

/-- An entry has the tokens of its call. -/
private theorem field_usageEntry {entry : Usage} (h : usageEntry resolver call = some (some entry))
    {name : String} (hname : name ∈ tokenFields) : field entry name = field call name := by
  have hbase : field (unpricedEntry call) name = field call name := by
    simp only [tokenFields, List.mem_cons, List.not_mem_nil, or_false] at hname
    rcases hname with rfl | rfl | rfl <;> rfl
  have hupdate {e : Usage} (he : e.map Prod.fst ⊆ ["estimated_cost", "currency", "pricing_revision",
      "cost_source"]) (hn : (e.map Prod.fst).Nodup) :
      field (Dict.update (unpricedEntry call) e) name = field call name := by
    rw [field_update hn, hbase]
    apply Dict.get?_eq_none.mpr
    intro hin
    have hboth := he hin
    simp only [tokenFields, List.mem_cons, List.not_mem_nil, or_false] at hname hboth
    rcases hname with rfl | rfl | rfl <;> simp at hboth
  unfold usageEntry at h
  split at h
  · cases h
  · split at h
    · cases h
      exact hupdate (by simp) (by simp)
    · obtain ⟨price, -, h⟩ := Option.bind_eq_some_iff.mp h
      cases price with
      | none =>
        cases h
        exact hbase
      | some price =>
        obtain ⟨amount, -, h⟩ := Option.bind_eq_some_iff.mp h
        cases h
        exact hupdate (by simp) (by simp)

private theorem usageEntry_tokens {entry : Usage} (h : usageEntry resolver call = some (some entry))
    (htokens : (tokenFields.any fun name => (field call name).truthy) = true) :
    (tokenFields.any fun name => (field (encodeFields entry) name).truthy) = true := by
  obtain ⟨name, hname, htruthy⟩ := List.any_eq_true.mp htokens
  refine List.any_eq_true.mpr ⟨name, hname, ?_⟩
  rw [field_encodeFields, field_usageEntry h hname]
  exact truthy_encode htruthy

/-- The cost of a call that names a model is its entry's. -/
private theorem usageEntry_cost {entry : Usage} (h : usageEntry resolver call = some (some entry))
    {cost : Decimal} (hcost : (field call "cost").money = some cost) :
    field entry "estimated_cost" = moneyText cost := by
  unfold usageEntry at h
  split at h
  · cases h
  · rw [hcost] at h
    cases h
    rfl

/-- The charges of one call's entry. -/
private theorem call_charges (hmode : IsAmount (field call "cost") → NamesModel call) {ys : List UsageValue}
    (hys : callEntries resolver call = some ys) {q : ℚ} (hq : callCost resolver call = some q) :
    ∃ charges rs, chargesOf resolver ys = some charges ∧
      List.Forall₂ (fun c r => Decimal.value c.1 = some r) charges rs ∧ rs.Sublist [q] ∧ rs.sum = q := by
  obtain ⟨entry, hentry, rfl⟩ := Option.map_eq_some_iff.mp hys
  cases entry with
  | none =>
    have hno : ¬ NamesModel call := fun hmodel => by simpa using (usageEntry_isSome_iff hentry).mpr hmodel
    have hmoney : (field call "cost").money = none := not_not.mp fun hne => hno (hmode (.inr hne))
    have hzero : q = 0 := by
      rw [callCost, callCharge, hentry, Option.bind_some, Option.bind_some, hmoney] at hq
      exact (Option.some.inj hq).symm
    exact ⟨[], [], rfl, .nil, List.nil_sublist _, hzero.symm⟩
  | some entry =>
    rw [callCost, callCharge, hentry, Option.bind_some] at hq
    obtain ⟨charged, hcharged, hq⟩ := Option.bind_eq_some_iff.mp hq
    obtain ⟨charge, hcharge, rfl⟩ := Option.map_eq_some_iff.mp hcharged
    cases charge with
    | none =>
      have hzero : q = 0 := (Option.some.inj hq).symm
      refine ⟨[], [], ?_, .nil, List.nil_sublist _, hzero.symm⟩
      rw [Option.toList_some, List.map_singleton, chargesOf, chargeOf, hcharge]
      rfl
    | some charge =>
      refine ⟨[(charge.cost, charge.priceCurrency.or (field (encodeFields entry) "currency"))], [q], ?_,
        .cons hq .nil, List.Sublist.refl _, List.sum_singleton⟩
      rw [Option.toList_some, List.map_singleton, chargesOf, chargeOf, hcharge]
      rfl

/-- The charges of the entries of a list of calls. -/
private theorem calls_charges (hmode : ModelsCosts calls)
    (haccepted : ∀ call ∈ calls, (callEntries resolver call).isSome = true)
    (hcosts : ∀ call ∈ calls, (callCost resolver call).isSome = true) :
    ∃ charges rs, chargesOf resolver (callsEntries resolver calls) = some charges ∧
      List.Forall₂ (fun c r => Decimal.value c.1 = some r) charges rs ∧
      rs.Sublist (callsCosts resolver calls) ∧ rs.sum = (callsCosts resolver calls).sum := by
  induction calls with
  | nil => exact ⟨[], [], rfl, .nil, List.Sublist.refl _, rfl⟩
  | cons call calls ih =>
    obtain ⟨ys, hys⟩ := Option.isSome_iff_exists.mp (haccepted call List.mem_cons_self)
    obtain ⟨q, hq⟩ := Option.isSome_iff_exists.mp (hcosts call List.mem_cons_self)
    obtain ⟨cs, ps, hcs, hps, hsub, hsum⟩ := call_charges (hmode call List.mem_cons_self) hys hq
    obtain ⟨ds, rs, hds, hrs, hsub', hsum'⟩ := ih (fun c hc => hmode c (List.mem_cons_of_mem _ hc))
      (fun c hc => haccepted c (List.mem_cons_of_mem _ hc)) (fun c hc => hcosts c (List.mem_cons_of_mem _ hc))
    have hentries : callsEntries resolver (call :: calls) = ys ++ callsEntries resolver calls := by
      rw [callsEntries, List.flatMap_cons, hys]
      rfl
    have hall : callsCosts resolver (call :: calls) = [q] ++ callsCosts resolver calls := by
      rw [callsCosts, List.map_cons, hq]
      rfl
    rw [hentries, hall]
    refine ⟨cs ++ ds, ps ++ rs, chargesOf_append hcs hds, List.rel_append hps hrs, hsub.append hsub', ?_⟩
    rw [List.sum_append, List.sum_append, hsum, hsum', List.sum_singleton]

/-- A list of calls without an entry names no model. -/
private theorem noModel_of_no_entries (haccepted : ∀ call ∈ calls, (callEntries resolver call).isSome = true)
    (hnone : callsEntries resolver calls = []) : ∀ call ∈ calls, ¬ NamesModel call := by
  intro call hcall hmodel
  obtain ⟨ys, hys⟩ := Option.isSome_iff_exists.mp (haccepted call hcall)
  obtain ⟨entry, hentry, rfl⟩ := Option.map_eq_some_iff.mp hys
  have hempty := List.flatMap_eq_nil_iff.mp hnone call hcall
  cases entry with
  | none => exact absurd ((usageEntry_isSome_iff hentry).mpr hmodel) Bool.false_ne_true
  | some entry =>
    rw [hys] at hempty
    cases hempty

private theorem no_entries_of_noModel (haccepted : ∀ call ∈ calls, (callEntries resolver call).isSome = true)
    (hno : ∀ call ∈ calls, ¬ NamesModel call) : callsEntries resolver calls = [] := by
  apply List.flatMap_eq_nil_iff.mpr
  intro call hcall
  obtain ⟨ys, hys⟩ := Option.isSome_iff_exists.mp (haccepted call hcall)
  obtain ⟨entry, hentry, rfl⟩ := Option.map_eq_some_iff.mp hys
  rw [hys]
  cases entry with
  | none => rfl
  | some entry => exact absurd ((usageEntry_isSome_iff hentry).mp rfl) (hno call hcall)

/-- `cost` where there are no entries. -/
private theorem usageCost_no_entries (hentries : HasEntries u []) : usageCost resolver u =
    some ((field u "cost").money.elim ⟨Decimal.ofInt 0, .null, .none, true⟩
      fun legacy => ⟨legacy, field u "currency", .complete, false⟩) := by
  rw [usageCost, hentries.iterate, Option.bind_eq_bind, Option.bind_some, List.isEmpty_nil, if_pos rfl]
  cases (field u "cost").money with
  | none => rfl
  | some legacy => rfl

private theorem value_zero : (Decimal.ofInt 0).value = some 0 := by
  simp [Decimal.ofInt, Decimal.value, Decimal.signed]

/-- The amount of a ledger is the sum of the costs of its calls. -/
theorem Ledger.cost (hl : Ledger resolver calls u) (hmode : ModelsCosts calls ∨ CostsOnly calls)
    (hcosts : ∀ call ∈ calls, (callCost resolver call).isSome = true)
    (hfit : Decimal.FitTogether (callsCosts resolver calls)) :
    ∃ summary, usageCost resolver u = some summary ∧
      summary.amount.value = some (callsCosts resolver calls).sum := by
  have hentries := hl.entries
  rcases hmode with hmodels | honly
  · obtain ⟨charges, rs, hcharges, hrs, hsub, hsum⟩ := calls_charges hmodels hl.accepted hcosts
    rw [← hsum]
    by_cases hne : callsEntries resolver calls = []
    · rw [hne] at hentries hcharges
      cases hcharges
      cases hrs
      have hno := noModel_of_no_entries hl.accepted hne
      have hunpaid := hl.unpaid fun call hcall hamount => hno call hcall (hmodels call hcall hamount)
      have hmoney : (field u "cost").money = none := not_not.mp fun hmoney => hunpaid (.inr hmoney)
      rw [usageCost_no_entries hentries, hmoney]
      exact ⟨_, rfl, value_zero⟩
    · have hvalues : List.Forall₂ (fun d r => Decimal.value d = some r) (charges.map Prod.fst) rs :=
        List.forall₂_map_left_iff.mpr hrs
      obtain ⟨amount, hamount, hvalue⟩ := Decimal.foldlM_add_exact hvalues (hfit.sublist hsub)
      have hstart : sumCharges ({} : Costing).amount charges = some amount := hamount
      obtain ⟨s, hs⟩ := Costing.exists_loop hcharges hstart
      obtain ⟨charges', hcharges', -, hamount', -⟩ := Costing.loop_charges hs
      rw [hcharges] at hcharges'
      cases hcharges'
      rw [sumCharges, hamount] at hamount'
      cases hamount'
      rw [usageCost, hentries.iterate, Option.bind_eq_bind, Option.bind_some,
        if_neg (by rw [List.isEmpty_iff]; exact hne), hs]
      exact ⟨_, rfl, hvalue⟩
  · have hnone := no_entries_of_noModel hl.accepted fun call hcall => (honly call hcall).1
    rw [hnone] at hentries
    rw [usageCost_no_entries hentries]
    refine ⟨_, rfl, ?_⟩
    rcases hl.paid honly hcosts hfit with ⟨hget, hzero⟩ | ⟨v, d, hget, hmoney, hvalue⟩
    · rw [field_of_none hget, hzero]
      exact value_zero
    · rw [field_of_get? hget, hmoney]
      exact hvalue

/-- A call alone is taken. -/
private theorem exists_recordUsage (hcall : IsCall call) (h : (callEntries resolver call).isSome = true) :
    ∃ u, recordUsage resolver [] call = some u := by
  obtain ⟨ys, hys⟩ := Option.isSome_iff_exists.mp h
  obtain ⟨entry, hentry, -⟩ := Option.map_eq_some_iff.mp hys
  have hmerge : ∀ key v, Dict.get? call key = some v →
      (mergeField key (Dict.get? ([] : Usage) key) v).isSome = true := by
    intro key v _
    unfold mergeField
    cases moneyOf key v with
    | none =>
      dsimp only
      rw [if_neg]
      · rfl
      · exact fun hboth => Bool.noConfusion ((Bool.and_eq_true _ _).mp hboth).2
    | some increment => rfl
  obtain ⟨usage, husage⟩ := Dict.exists_updateM hcall.nodup [] hmerge
  have hkept : field usage "entries" = .null :=
    field_of_none ((Dict.get?_updateM hcall.nodup husage "entries").1 hcall.entries)
  rw [recordUsage, hentry, Option.bind_some, lockedUsageUpdate, mergeUsage, Option.bind_eq_bind, husage,
    Option.bind_some]
  cases entry with
  | none => exact ⟨_, rfl⟩
  | some entry =>
    dsimp only
    rw [hkept, iterate_null]
    exact ⟨_, rfl⟩

/-- Calls whose costs can be added up: each cost is a number, together they fit, and either the calls
that give a cost name a model, or no call does. -/
structure Payable (resolver : Option StaticTablePricing) (calls : List Usage) : Prop where
  kind : ModelsCosts calls ∨ CostsOnly calls
  costs : ∀ call ∈ calls, (callCost resolver call).isSome = true
  fit : Decimal.FitTogether (callsCosts resolver calls)

/-- The amount of an aggregate is the sum of the amounts of the calls alone. -/
def AmountIsSum (resolver : Option StaticTablePricing) (calls : List Usage) (u : Usage) : Prop :=
  ∃ amounts : List ℚ, calls.map (callAmount resolver) = amounts.map some ∧
    ∃ summary, usageCost resolver u = some summary ∧ summary.amount.value = some amounts.sum

/-- The costs of the calls that name a model. -/
def namedCharges (resolver : Option StaticTablePricing) (calls : List Usage) : List Decimal :=
  calls.filterMap fun call => if NamesModel call then (callCharge resolver call).join else none

/-- A complete cost has every call that names a model and gives tokens or a cost: such a call has a
cost, and that is among those the amount is the sum of. -/
def CompleteHasAll (resolver : Option StaticTablePricing) (calls : List Usage) (u : Usage) : Prop :=
  ∀ summary, usageCost resolver u = some summary → summary.coverage = .complete →
    ∀ call ∈ calls, NamesModel call →
      ((tokenFields.any fun name => (field call name).truthy) = true ∨ (field call "cost").money ≠ none) →
        ∃ cost, callCharge resolver call = some (some cost) ∧ cost ∈ namedCharges resolver calls ∧
          (namedCharges resolver calls).foldlM Decimal.add (Decimal.ofInt 0) = some summary.amount

/-- The cost of an aggregate of calls against the costs of the calls. -/
structure AdditiveCost (resolver : Option StaticTablePricing) (calls : List Usage) (u : Usage) : Prop where
  amount : Payable resolver calls → AmountIsSum resolver calls u
  complete : CompleteHasAll resolver calls u

/-- What `cost` gives for a call alone. -/
private theorem Payable.callAmount (hs : Payable resolver calls) (hcalls : ∀ call ∈ calls, IsCall call)
    (haccepted : ∀ call ∈ calls, (callEntries resolver call).isSome = true) (hcall : call ∈ calls) :
    callAmount resolver call = some ((callCost resolver call).getD 0) := by
  obtain ⟨u, hu⟩ := exists_recordUsage (hcalls call hcall) (haccepted call hcall)
  have hsingle {p : Usage → Prop} (h : ∀ c ∈ calls, p c) : ∀ c ∈ [call], p c := by
    intro c hc
    rw [List.mem_singleton.mp hc]
    exact h call hcall
  have hattempt : attemptUsage resolver [call] = some u := by
    rw [attemptUsage, List.foldlM_cons, hu]
    rfl
  have hl := ledger_attempt (hsingle hcalls) hattempt
  have hsub : (callsCosts resolver [call]).Sublist (callsCosts resolver calls) :=
    (List.singleton_sublist.mpr hcall).map _
  obtain ⟨summary, hsummary, hvalue⟩ :=
    hl.cost (hs.kind.imp hsingle hsingle) (hsingle hs.costs) (hs.fit.sublist hsub)
  rw [Qraft.callAmount, hu, Option.bind_some, hsummary, Option.bind_some, hvalue, callsCosts,
    List.map_singleton, List.sum_singleton]

/-- The entries of a list of calls are charged what the calls that name a model cost. -/
private theorem map_fst_charges (haccepted : ∀ call ∈ calls, (callEntries resolver call).isSome = true)
    {charges : List (Decimal × UsageValue)}
    (h : chargesOf resolver (callsEntries resolver calls) = some charges) :
    charges.map Prod.fst = namedCharges resolver calls := by
  induction calls generalizing charges with
  | nil =>
    cases h
    rfl
  | cons call calls ih =>
    obtain ⟨ys, hys⟩ := Option.isSome_iff_exists.mp (haccepted call List.mem_cons_self)
    obtain ⟨entry, hentry, rfl⟩ := Option.map_eq_some_iff.mp hys
    have hrest {cs : List (Decimal × UsageValue)}
        (hcs : chargesOf resolver (callsEntries resolver calls) = some cs) :=
      ih (fun c hc => haccepted c (List.mem_cons_of_mem _ hc)) hcs
    have hmodel : entry.isSome = true ↔ NamesModel call := usageEntry_isSome_iff hentry
    rw [callsEntries, List.flatMap_cons, hys, ← callsEntries] at h
    rw [namedCharges, List.filterMap_cons, ← namedCharges, callCharge, hentry, Option.bind_some]
    cases entry with
    | none =>
      have hno : ¬ NamesModel call := fun hm => Bool.false_ne_true (hmodel.mpr hm)
      rw [if_neg hno]
      exact hrest h
    | some entry =>
      rw [if_pos (hmodel.mp rfl)]
      obtain ⟨charged, hcharged, h⟩ := Option.bind_eq_some_iff.mp h
      obtain ⟨rest, hcs, h⟩ := Option.bind_eq_some_iff.mp h
      cases h
      obtain ⟨charge, hcharge, rfl⟩ := Option.map_eq_some_iff.mp hcharged
      rw [List.map_append, hrest hcs]
      dsimp only
      rw [hcharge]
      cases charge with
      | none => rfl
      | some charge => rfl

/-- Every entry of a call that names a model, with tokens or an amount, is charged where `cost` reports
the whole as complete. -/
private theorem Ledger.charged (hl : Ledger resolver calls u) {summary : CostSummary}
    (h : usageCost resolver u = some summary) (hcomplete : summary.coverage = .complete)
    (hcall : call ∈ calls) (hmodel : NamesModel call)
    (hgiven : (tokenFields.any fun name => (field call name).truthy) = true ∨
      (field call "cost").money ≠ none) :
    (∃ cost, callCharge resolver call = some (some cost)) ∧
      (namedCharges resolver calls).foldlM Decimal.add (Decimal.ofInt 0) = some summary.amount := by
  obtain ⟨ys, hys⟩ := Option.isSome_iff_exists.mp (hl.accepted call hcall)
  obtain ⟨entry, hentry, rfl⟩ := Option.map_eq_some_iff.mp hys
  cases entry with
  | none => exact absurd ((usageEntry_isSome_iff hentry).mpr hmodel) Bool.false_ne_true
  | some entry =>
    have hin : UsageValue.dict (encodeFields entry) ∈ callsEntries resolver calls :=
      List.mem_flatMap.mpr ⟨call, hcall, by rw [hys]; exact List.mem_singleton_self _⟩
    rw [usageCost, hl.entries.iterate, Option.bind_eq_bind, Option.bind_some,
      if_neg (by rw [List.isEmpty_iff]; exact List.ne_nil_of_mem hin)] at h
    obtain ⟨s, hloop, h⟩ := Option.bind_eq_some_iff.mp h
    cases h
    dsimp only at hcomplete
    have hcharges : callCharge resolver call =
        (entryCharge resolver (encodeFields entry)).map fun charge => charge.map Charge.cost := by
      rw [callCharge, hentry, Option.bind_some]
    obtain ⟨charges, hall, -, hamount, -⟩ := Costing.loop_charges hloop
    rw [← map_fst_charges hl.accepted hall, hcharges]
    refine ⟨?_, hamount⟩
    rcases hgiven with htokens | hcost
    · have hunpriced : s.unpriced = 0 := by
        by_contra hne
        rw [if_neg hne] at hcomplete
        split at hcomplete
        · cases hcomplete
        · cases hcomplete
      obtain ⟨charge, hcharge⟩ := (Costing.loop_unpriced hloop).2 hunpriced _ hin
        (usageEntry_tokens hentry htokens)
      rw [hcharge]
      exact ⟨charge.cost, rfl⟩
    · obtain ⟨cost, hmoney⟩ := Option.ne_none_iff_exists'.mp hcost
      refine ⟨cost, ?_⟩
      have hread : (field (encodeFields entry) "estimated_cost").money = some cost := by
        rw [field_encodeFields, usageEntry_cost hentry hmoney]
        exact money_encode (money_moneyText (inRange_of_money hmoney))
      unfold entryCharge
      rw [hread]
      rfl

private theorem Ledger.complete (hl : Ledger resolver calls u) : CompleteHasAll resolver calls u := by
  intro summary h hcomplete call hcall hmodel hgiven
  obtain ⟨⟨cost, hcost⟩, hsum⟩ := hl.charged h hcomplete hcall hmodel hgiven
  refine ⟨cost, hcost, List.mem_filterMap.mpr ⟨call, hcall, ?_⟩, hsum⟩
  rw [if_pos hmodel, hcost]
  rfl

private theorem Ledger.additive (hl : Ledger resolver calls u) (hcalls : ∀ call ∈ calls, IsCall call) :
    AdditiveCost resolver calls u := by
  constructor
  · intro hs
    obtain ⟨summary, hsummary, hvalue⟩ := hl.cost hs.kind hs.costs hs.fit
    refine ⟨callsCosts resolver calls, ?_, summary, hsummary, hvalue⟩
    rw [callsCosts, List.map_map]
    exact List.map_congr_left fun call hcall => hs.callAmount hcalls hl.accepted hcall
  · exact hl.complete

/-- What holds of each value and its image holds of the list and its images. -/
private theorem forall₂_mapM {α β : Type} {R : α → β → Prop} {f : α → Option β} {xs : List α} {ys : List β}
    (hR : ∀ x ∈ xs, ∀ y, f x = some y → R x y) (h : xs.mapM f = some ys) : List.Forall₂ R xs ys := by
  induction xs generalizing ys with
  | nil =>
    cases h
    exact .nil
  | cons x xs ih =>
    rw [List.mapM_cons] at h
    obtain ⟨y, hy, h⟩ := Option.bind_eq_some_iff.mp h
    obtain ⟨rest, hrest, h⟩ := Option.bind_eq_some_iff.mp h
    cases h
    exact .cons (hR x List.mem_cons_self y hy) (ih (fun x hx => hR x (List.mem_cons_of_mem _ hx)) hrest)

/-- The usage of a task, and the calls of its attempts. -/
private theorem ledger_task {attempts : List (List Usage)} (hcalls : ∀ call ∈ attempts.flatten, IsCall call)
    (h : aggregateUsage resolver attempts = some u) : Ledger resolver attempts.flatten u := by
  obtain ⟨us, hus, hsum⟩ := Option.bind_eq_some_iff.mp h
  refine ledger_sum (forall₂_mapM ?_ hus) hsum
  intro calls hin usage husage
  exact ledger_attempt (fun call hcall => hcalls call (List.mem_flatten.mpr ⟨calls, hin, hcall⟩)) husage

/-- The usage of a workflow, and the calls of the attempts of its tasks. -/
private theorem ledger_workflow {tasks : List (List (List Usage))}
    (hcalls : ∀ call ∈ tasks.flatten.flatten, IsCall call)
    (h : aggregateWorkflowUsage resolver tasks = some u) : Ledger resolver tasks.flatten.flatten u := by
  obtain ⟨us, hus, hsum⟩ := Option.bind_eq_some_iff.mp h
  have hall : List.Forall₂ (Ledger resolver) (tasks.map List.flatten) us := by
    apply List.forall₂_map_left_iff.mpr
    refine forall₂_mapM ?_ hus
    intro attempts hin usage husage
    refine ledger_task (fun call hcall => hcalls call ?_) husage
    obtain ⟨calls, hcalls, hcall⟩ := List.mem_flatten.mp hcall
    exact List.mem_flatten.mpr ⟨calls, List.mem_flatten.mpr ⟨attempts, hin, hcalls⟩, hcall⟩
  rw [List.flatten_flatten]
  exact ledger_sum hall hsum

end

/-- Over an attempt, over the attempts of a task and over the tasks of a workflow. -/
theorem cost_additive (resolver : Option StaticTablePricing) :
    (∀ calls u, (∀ call ∈ calls, IsCall call) → attemptUsage resolver calls = some u →
      AdditiveCost resolver calls u) ∧
    (∀ attempts u, (∀ call ∈ attempts.flatten, IsCall call) → aggregateUsage resolver attempts = some u →
      AdditiveCost resolver attempts.flatten u) ∧
    (∀ tasks u, (∀ call ∈ tasks.flatten.flatten, IsCall call) →
      aggregateWorkflowUsage resolver tasks = some u → AdditiveCost resolver tasks.flatten.flatten u) := by
  refine ⟨?_, ?_, ?_⟩
  · intro calls u hcalls h
    exact (ledger_attempt hcalls h).additive hcalls
  · intro attempts u hcalls h
    exact (ledger_task hcalls h).additive hcalls
  · intro tasks u hcalls h
    exact (ledger_workflow hcalls h).additive hcalls

private def modelCalls : List Usage :=
  [[("model", .str "m"), ("cost", .str "3"), ("currency", .str "USD")],
    [("model", .str "n"), ("cost", .int 2), ("currency", .str "USD")]]

private theorem isCall_modelCalls : ∀ call ∈ modelCalls, IsCall call := by
  intro call hcall
  simp only [modelCalls, List.mem_cons, List.not_mem_nil, or_false] at hcall
  rcases hcall with rfl | rfl
  · exact ⟨by decide, rfl⟩
  · exact ⟨by decide, rfl⟩

private theorem payable_modelCalls : Payable none modelCalls := by
  have hcosts : callsCosts none modelCalls = [3, 2] := by decide +kernel
  refine ⟨.inl ?_, ?_, ?_⟩
  · intro call hcall _
    simp only [modelCalls, List.mem_cons, List.not_mem_nil, or_false] at hcall
    rcases hcall with rfl | rfl
    · rfl
    · rfl
  · intro call hcall
    simp only [modelCalls, List.mem_cons, List.not_mem_nil, or_false] at hcall
    rcases hcall with rfl | rfl
    · decide +kernel
    · decide +kernel
  · rw [hcosts]
    refine ⟨0, by decide, by decide, ?_, by norm_num [Decimal.prec]⟩
    intro q hq
    simp only [List.mem_cons, List.not_mem_nil, or_false] at hq
    rcases hq with rfl | rfl
    · exact ⟨3, by norm_num⟩
    · exact ⟨2, by norm_num⟩

theorem cost_additive_modelCalls : ∃ u,
    aggregateWorkflowUsage none [[modelCalls.take 1], [modelCalls.drop 1]] = some u ∧
      AmountIsSum none modelCalls u ∧ CompleteHasAll none modelCalls u := by
  obtain ⟨u, hu⟩ : ∃ u, aggregateWorkflowUsage none [[modelCalls.take 1], [modelCalls.drop 1]] = some u :=
    ⟨_, rfl⟩
  have hcost := (cost_additive none).2.2 [[modelCalls.take 1], [modelCalls.drop 1]] u isCall_modelCalls hu
  exact ⟨u, hu, hcost.amount payable_modelCalls, hcost.complete⟩

/-- A cost without a model, and one with a model. -/
private def mixedCalls : List Usage :=
  [[("cost", .str "5"), ("currency", .str "USD")],
    [("model", .str "m"), ("cost", .str "3"), ("currency", .str "USD")]]

/-- Five and three are three. -/
theorem flat_cost_dropped : ∃ u, attemptUsage none mixedCalls = some u ∧
    mixedCalls.map (callAmount none) = [some 5, some 3] ∧
    (∃ summary, usageCost none u = some summary ∧ summary.amount.value = some 3 ∧
      summary.coverage = .complete) ∧ ¬ AmountIsSum none mixedCalls u := by
  have hamounts : mixedCalls.map (callAmount none) = [some 5, some 3] := by decide +kernel
  obtain ⟨u, hu⟩ : ∃ u, attemptUsage none mixedCalls = some u := ⟨_, rfl⟩
  have hcost : (attemptUsage none mixedCalls).bind (usageCost none) =
      some ⟨.finite false 3 0, .str "USD", .complete, false⟩ := rfl
  rw [hu, Option.bind_some] at hcost
  have hthree : (Decimal.finite false 3 0).value = some 3 := by decide +kernel
  refine ⟨u, hu, hamounts, ⟨_, hcost, hthree, rfl⟩, ?_⟩
  rintro ⟨amounts, hall, summary, hsummary, hvalue⟩
  have heq : amounts = [5, 3] := by
    apply List.map_injective_iff.mpr (Option.some_injective ℚ)
    exact hall.symm.trans hamounts
  rw [hcost] at hsummary
  cases hsummary
  rw [hthree, heq] at hvalue
  exact absurd (Option.some.inj hvalue) (by norm_num)

end Qraft
