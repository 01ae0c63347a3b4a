import Qraft.Usage.Pricing

/-! The currencies that `cost` adds up, and the one it puts on the sum. -/
namespace Qraft
open UsageValue

namespace UsageValue

theorem or_or (a b c : UsageValue) : (a.or b).or c = a.or (b.or c) := by
  cases h : a.truthy with
  | true => simp [UsageValue.or, h]
  | false => simp [UsageValue.or, h]

theorem or_same (a : UsageValue) : a.or a = a := by
  unfold UsageValue.or
  split
  · rfl
  · rfl

theorem null_or (a : UsageValue) : UsageValue.null.or a = a := rfl

end UsageValue

/-- What an entry is charged at, and in which currency: the table's for one that is priced when it is
read, as far as the table has one, and otherwise its own. -/
def chargeOf (resolver : Option StaticTablePricing) :
    UsageValue → Option (Option (Decimal × UsageValue))
  | .dict fields => (entryCharge resolver fields).map fun charge => charge.map fun c =>
      (c.cost, c.priceCurrency.or (field fields "currency"))
  | _ => none

def chargesOf (resolver : Option StaticTablePricing) : List UsageValue → Option (List (Decimal × UsageValue))
  | [] => some []
  | entry :: entries => do
    let charge ← chargeOf resolver entry
    let rest ← chargesOf resolver entries
    return charge.toList ++ rest

def usageCharges (resolver : Option StaticTablePricing) (usage : Usage) :
    Option (List (Decimal × UsageValue)) :=
  (iterate (field usage "entries")).bind (chargesOf resolver)

def sumCharges (start : Decimal) (charges : List (Decimal × UsageValue)) : Option Decimal :=
  (charges.map Prod.fst).foldlM Decimal.add start

section
variable {resolver : Option StaticTablePricing} {s s' : Costing} {entry : UsageValue}

/-- One entry in the loop, by its charge. -/
theorem Costing.step_charge (h : s.step resolver entry = some s') :
    ∃ charge, chargeOf resolver entry = some charge ∧
      s'.currency = (charge.toList.map Prod.snd).foldl UsageValue.or s.currency ∧
      sumCharges s.amount charge.toList = some s'.amount ∧ s'.priced = s.priced + charge.toList.length := by
  cases entry with
  | dict fields =>
    obtain ⟨charge, hcharge, h⟩ := Option.bind_eq_some_iff.mp h
    cases charge with
    | none =>
      refine ⟨none, by rw [chargeOf, hcharge]; rfl, ?_⟩
      dsimp only at h
      split at h
      · cases h
        exact ⟨rfl, rfl, rfl⟩
      · cases h
        exact ⟨rfl, rfl, rfl⟩
    | some c =>
      obtain ⟨amount, hamount, h⟩ := Option.bind_eq_some_iff.mp h
      cases h
      refine ⟨some (c.cost, c.priceCurrency.or (field fields "currency")), by rw [chargeOf, hcharge]; rfl, ?_,
        ?_, rfl⟩
      · exact or_or _ _ _
      · rw [sumCharges, Option.toList_some, List.map_singleton, List.foldlM_cons, hamount]
        rfl
  | null => cases h
  | bool b => cases h
  | int n => cases h
  | num negative c e => cases h
  | decimal d => cases h
  | str t => cases h
  | list xs => cases h

/-- The whole loop, by the charges of the entries. -/
theorem Costing.loop_charges {entries : List UsageValue}
    (h : entries.foldlM (Costing.step resolver) s = some s') :
    ∃ charges, chargesOf resolver entries = some charges ∧
      s'.currency = (charges.map Prod.snd).foldl UsageValue.or s.currency ∧
      sumCharges s.amount charges = some s'.amount ∧ s'.priced = s.priced + charges.length := by
  induction entries generalizing s with
  | nil =>
    cases h
    exact ⟨[], rfl, rfl, rfl, rfl⟩
  | cons entry entries ih =>
    rw [List.foldlM_cons] at h
    obtain ⟨t, hstep, hrest⟩ := Option.bind_eq_some_iff.mp h
    obtain ⟨charge, hcharge, hcurrency, hamount, hpriced⟩ := Costing.step_charge hstep
    obtain ⟨charges, hcharges, hcurrency', hamount', hpriced'⟩ := ih hrest
    refine ⟨charge.toList ++ charges, ?_, ?_, ?_, ?_⟩
    · rw [chargesOf, hcharge, hcharges]
      rfl
    · rw [List.map_append, List.foldl_append, ← hcurrency, hcurrency']
    · rw [sumCharges, List.map_append, List.foldlM_append, ← sumCharges, hamount]
      exact hamount'
    · rw [List.length_append, hpriced', hpriced, Nat.add_assoc]

/-- The loop goes through where every entry can be charged and the charges can be added. -/
theorem Costing.exists_loop {entries : List UsageValue} {charges : List (Decimal × UsageValue)}
    {amount : Decimal} (hcharges : chargesOf resolver entries = some charges)
    (hsum : sumCharges s.amount charges = some amount) :
    ∃ s', entries.foldlM (Costing.step resolver) s = some s' := by
  induction entries generalizing s charges with
  | nil => exact ⟨s, rfl⟩
  | cons entry entries ih =>
    obtain ⟨charge, hcharge, h⟩ := Option.bind_eq_some_iff.mp hcharges
    obtain ⟨rest, hrest, h⟩ := Option.bind_eq_some_iff.mp h
    cases h
    rw [sumCharges, List.map_append, List.foldlM_append] at hsum
    obtain ⟨next, hnext, hsum⟩ := Option.bind_eq_some_iff.mp hsum
    have hstep : ∃ t, s.step resolver entry = some t := by
      cases entry with
      | dict fields =>
        obtain ⟨c, hc, he⟩ := Option.map_eq_some_iff.mp hcharge
        cases c with
        | none =>
          rw [Costing.step, hc]
          dsimp only [Option.bind_eq_bind, Option.bind_some]
          split
          · exact ⟨_, rfl⟩
          · exact ⟨_, rfl⟩
        | some c =>
          cases he
          rw [Option.map_some, Option.toList_some, List.map_singleton, List.foldlM_cons] at hnext
          obtain ⟨total, htotal, -⟩ := Option.bind_eq_some_iff.mp hnext
          refine ⟨{ s with
            amount := total
            currency := (s.currency.or c.priceCurrency).or (field fields "currency")
            priced := s.priced + 1
            estimated := s.estimated || !c.source.isText "caller" }, ?_⟩
          rw [Costing.step, hc]
          dsimp only [Option.bind_eq_bind, Option.bind_some]
          rw [htotal]
          rfl
      | null => cases hcharge
      | bool b => cases hcharge
      | int n => cases hcharge
      | num negative c e => cases hcharge
      | decimal d => cases hcharge
      | str t => cases hcharge
      | list xs => cases hcharge
    obtain ⟨t, ht⟩ := hstep
    obtain ⟨charge', hcharge', -, hamount, -⟩ := Costing.step_charge ht
    rw [hcharge] at hcharge'
    cases hcharge'
    rw [sumCharges, hnext] at hamount
    cases hamount
    obtain ⟨s', hs'⟩ := ih hrest hsum
    refine ⟨s', ?_⟩
    rw [List.foldlM_cons, ht]
    exact hs'

/-- Where the loop leaves nothing unpriced, every entry with tokens is charged. -/
theorem Costing.loop_unpriced {entries : List UsageValue}
    (h : entries.foldlM (Costing.step resolver) s = some s') : s.unpriced ≤ s'.unpriced ∧
      (s'.unpriced = s.unpriced → ∀ fields, .dict fields ∈ entries →
        (tokenFields.any fun name => (field fields name).truthy) = true →
          ∃ charge, entryCharge resolver fields = some (some charge)) := by
  induction entries generalizing s with
  | nil =>
    cases h
    exact ⟨le_rfl, fun _ fields hin => absurd hin List.not_mem_nil⟩
  | cons entry entries ih =>
    rw [List.foldlM_cons] at h
    obtain ⟨t, hstep, hrest⟩ := Option.bind_eq_some_iff.mp h
    obtain ⟨hle, hall⟩ := ih hrest
    cases entry with
    | dict fields =>
      obtain ⟨charge, hcharge, hstep⟩ := Option.bind_eq_some_iff.mp hstep
      cases charge with
      | some charge =>
        obtain ⟨amount, -, hstep⟩ := Option.bind_eq_some_iff.mp hstep
        cases hstep
        refine ⟨hle, fun he fields' hin htokens => ?_⟩
        rcases List.mem_cons.mp hin with hsame | hin
        · cases hsame
          exact ⟨charge, hcharge⟩
        · exact hall he fields' hin htokens
      | none =>
        dsimp only at hstep
        split at hstep
        · cases hstep
          dsimp only at hle
          exact ⟨by omega, fun he => by omega⟩
        · rename_i hno
          cases hstep
          refine ⟨hle, fun he fields' hin htokens => ?_⟩
          rcases List.mem_cons.mp hin with hsame | hin
          · cases hsame
            exact absurd htokens hno
          · exact hall he fields' hin htokens
    | null => cases hstep
    | bool b => cases hstep
    | int n => cases hstep
    | num negative c e => cases hstep
    | decimal d => cases hstep
    | str t => cases hstep
    | list xs => cases hstep

theorem chargesOf_append {xs ys : List UsageValue} {cs ds : List (Decimal × UsageValue)}
    (hxs : chargesOf resolver xs = some cs) (hys : chargesOf resolver ys = some ds) :
    chargesOf resolver (xs ++ ys) = some (cs ++ ds) := by
  induction xs generalizing cs with
  | nil =>
    cases hxs
    exact hys
  | cons x xs ih =>
    obtain ⟨charge, hcharge, h⟩ := Option.bind_eq_some_iff.mp hxs
    obtain ⟨rest, hrest, h⟩ := Option.bind_eq_some_iff.mp h
    cases h
    rw [List.cons_append, chargesOf, hcharge, ih hrest, List.append_assoc]
    rfl

/-- What `cost` returns for a usage object with entries. -/
theorem usageCost_charges {usage : Usage} {summary : CostSummary} {entries : List UsageValue}
    (hentries : iterate (field usage "entries") = some entries) (hne : entries ≠ [])
    (h : usageCost resolver usage = some summary) :
    ∃ charges, usageCharges resolver usage = some charges ∧
      summary.currency = (charges.map Prod.snd).foldl UsageValue.or .null ∧
      sumCharges (Decimal.ofInt 0) charges = some summary.amount := by
  unfold usageCost at h
  rw [hentries, Option.bind_eq_bind, Option.bind_some, if_neg (by rw [List.isEmpty_iff]; exact hne)] at h
  obtain ⟨s, hloop, h⟩ := Option.bind_eq_some_iff.mp h
  cases h
  obtain ⟨charges, hcharges, hcurrency, hamount, -⟩ := Costing.loop_charges hloop
  exact ⟨charges, by rw [usageCharges, hentries]; exact hcharges, hcurrency, hamount⟩

private theorem foldl_or_const {c : UsageValue} {cs : List UsageValue} (h : ∀ d ∈ cs, d = c) :
    cs.foldl UsageValue.or c = c := by
  induction cs with
  | nil => rfl
  | cons d cs ih =>
    rw [List.foldl_cons, h d List.mem_cons_self, or_same]
    exact ih fun d hd => h d (List.mem_cons_of_mem _ hd)

/-- The amount is the sum of the charges, and every charge is in the currency on the label. -/
structure InOneCurrency (resolver : Option StaticTablePricing) (usage : Usage) (summary : CostSummary) :
    Prop where
  amount : ∀ charges, usageCharges resolver usage = some charges → charges ≠ [] →
    sumCharges (Decimal.ofInt 0) charges = some summary.amount
  currency : ∀ charges, usageCharges resolver usage = some charges →
    ∀ charge ∈ charges, charge.2 = summary.currency

/-- Exactly when the label is true: when all the entries that are charged are in one currency. -/
theorem cost_one_currency_iff {usage : Usage} {summary : CostSummary}
    (h : usageCost resolver usage = some summary) : InOneCurrency resolver usage summary ↔
      ∀ charges, usageCharges resolver usage = some charges →
        ∀ c ∈ charges, ∀ d ∈ charges, c.2 = d.2 := by
  constructor
  · intro hone charges hcharges c hc d hd
    exact (hone.currency charges hcharges c hc).trans (hone.currency charges hcharges d hd).symm
  · intro hsame
    obtain ⟨entries, hentries, -⟩ := Option.bind_eq_some_iff.mp h
    by_cases hne : entries = []
    · have hnone : usageCharges resolver usage = some [] := by
        rw [usageCharges, hentries, hne]
        rfl
      constructor
      · intro charges hcharges hcne
        rw [hnone] at hcharges
        cases hcharges
        exact absurd rfl hcne
      · intro charges hcharges
        rw [hnone] at hcharges
        cases hcharges
        exact fun c hc => absurd hc List.not_mem_nil
    · obtain ⟨charges', hcharges', hcurrency, hamount⟩ := usageCost_charges hentries hne h
      constructor
      · intro charges hcharges _
        rw [hcharges'] at hcharges
        cases hcharges
        exact hamount
      · intro charges hcharges charge hin
        have hall := hsame charges hcharges
        rw [hcharges'] at hcharges
        cases hcharges
        cases charges' with
        | nil => exact absurd hin List.not_mem_nil
        | cons first rest =>
          have hfirst : ∀ d ∈ rest.map Prod.snd, d = first.2 := by
            intro d hd
            obtain ⟨c, hc, rfl⟩ := List.mem_map.mp hd
            exact hall c (List.mem_cons_of_mem _ hc) first List.mem_cons_self
          rw [hcurrency, List.map_cons, List.foldl_cons, null_or, foldl_or_const hfirst]
          exact hall charge hin first List.mem_cons_self

end

/-- Two entries that were priced when they were recorded. -/
private def twoEntries (first second : String) : Usage :=
  let entry (amount currency : String) : UsageValue :=
    .dict [("model", .str "m"), ("estimated_cost", .str amount), ("currency", .str currency),
      ("cost_source", .str "resolver")]
  [("entries", .list [entry "1" first, entry "2" second])]

private theorem cost_twoEntries (first second : String) :
    usageCharges none (twoEntries first second) =
      some [(.finite false 1 0, .str first), (.finite false 2 0, .str second)] := rfl

theorem cost_one_currency_dollars : ∃ summary, usageCost none (twoEntries "USD" "USD") = some summary ∧
    InOneCurrency none (twoEntries "USD" "USD") summary := by
  refine ⟨⟨.finite false 3 0, .str "USD", .complete, true⟩, rfl, ?_⟩
  refine (cost_one_currency_iff rfl).mpr fun charges hcharges c hc d hd => ?_
  rw [cost_twoEntries] at hcharges
  cases hcharges
  simp only [List.mem_cons, List.not_mem_nil, or_false] at hc hd
  rcases hc with rfl | rfl <;> rcases hd with rfl | rfl <;> rfl

/-- One dollar and two euros are three dollars. -/
theorem dollars_and_euros : ∃ summary, usageCost none (twoEntries "USD" "EUR") = some summary ∧
    summary.amount = .finite false 3 0 ∧ ¬ InOneCurrency none (twoEntries "USD" "EUR") summary := by
  refine ⟨⟨.finite false 3 0, .str "USD", .complete, true⟩, rfl, rfl, ?_⟩
  intro hone
  have heuros := hone.currency _ (cost_twoEntries "USD" "EUR") (.finite false 2 0, .str "EUR") (by simp)
  injection heuros with htext
  exact absurd htext (by decide)

end Qraft
